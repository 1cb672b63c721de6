import CodeTree.Proofs.Dialects.Locals
import CodeTree.Proofs.Reading.Emitted

/-! # Pieces of text within a dialect

What a piece of text adds to the tokens of the whole: tokens that the dialect has, and declarations of
locals. Behind a numeral an access to a member runs into the numeral and spoils it, so the text of an
expression is described together with any accesses to members behind it.

* `Token.isWithin`: the tokens that a dialect has.
* `Carries`: what some tokens add, wherever they stand.
* `Piece`, `Code` and `Phrase`: fixed texts, texts of code and texts of expressions.
* `Rows`: texts of whole lines.
* `phrase_name`, `phrase_signed` and the like: the texts that phrases are made of. -/

namespace CodeTree.Lua

set_option autoImplicit false

/-! ## Tokens -/

/-- The marks that LuaJIT does not have. -/
def Mark.isRecent : Mark → Bool
  | ampersand | bar | tilde | shiftLeft | shiftRight | doubleSlash => true
  | _ => false

/-- Whether the digits are an integer up to the largest one. -/
def fitsInteger (digits : List Char) : Bool := decide (Nat.ofDigitChars 10 digits 0 < 2 ^ 63)

/-- Whether a token is one of a dialect: LuaJIT has no recent marks, and the others read a numeral of
digits as an integer. -/
def Token.isWithin (target : Target) : Token → Bool
  | .mark m => decide (target ≠ .luaJIT) || !m.isRecent
  | .numeral text =>
    decide (target = .luaJIT) || !text.toList.all Char.isDigit || fitsInteger text.toList
  | _ => true

/-- The locals as they are declared: the constant ones with an attribute where there are attributes. -/
def marked (target : Target) (locals : List (String × Bool)) : List (String × Bool) :=
  locals.map fun declared => (declared.1, declared.2 && target.hasConstants)

@[simp] theorem marked_append (target : Target) (locals locals' : List (String × Bool)) :
    marked target (locals ++ locals') = marked target locals ++ marked target locals' :=
  List.map_append

/-- Some tokens of a dialect that declare these locals, if no name is a reserved word that makes
declarations hard to tell. -/
structure Carries (target : Target) (plain : Prop) (ts : List Token)
    (locals : List (String × Bool)) : Prop where
  within : ∀ t ∈ ts, t.isWithin target = true
  declared : plain → ∀ us, declaredLocals (ts ++ us) = marked target locals ++ declaredLocals us

section Texts

variable {target : Target} {plain : Prop} {ts us vs : List Token} {ds es : List (String × Bool)}
  {u v w : List Char}

theorem Carries.nil : Carries target plain [] [] := ⟨nofun, fun _ _ => rfl⟩

theorem Carries.append (h : Carries target plain ts ds) (h' : Carries target plain us es) :
    Carries target plain (ts ++ us) (ds ++ es) := by
  refine ⟨List.forall_mem_append.2 ⟨h.within, h'.within⟩, fun hplain vs => ?_⟩
  rw [List.append_assoc, h.declared hplain, h'.declared hplain, marked_append, List.append_assoc]

theorem carries_of_forall (hwithin : ∀ t ∈ ts, t.isWithin target = true)
    (hlocal : plain → .keyword .localWord ∉ ts) : Carries target plain ts [] :=
  ⟨hwithin, fun hplain _ => declaredLocals_append (hlocal hplain)⟩

/-- A text with the same tokens wherever it stands. -/
def Piece (target : Target) (plain : Prop) (w : List Char) (ds : List (String × Bool)) : Prop :=
  ∃ ts, Fixed w ts ∧ Carries target plain ts ds

/-- A text of code. -/
def Code (target : Target) (plain : Prop) (w : List Char) (ds : List (String × Bool)) : Prop :=
  ∃ ts, Spells true w ts ∧ Carries target plain ts ds

/-- A text of code that can stand right behind other code. -/
def Tail (target : Target) (plain : Prop) (w : List Char) (ds : List (String × Bool)) : Prop :=
  ∃ ts, Trails w ts ∧ Carries target plain ts ds

theorem Piece.append (h : Piece target plain u ds) (h' : Piece target plain v es) :
    Piece target plain (u ++ v) (ds ++ es) := by
  obtain ⟨us, hu, hus⟩ := h
  obtain ⟨vs, hv, hvs⟩ := h'
  exact ⟨us ++ vs, hu.append hv, hus.append hvs⟩

theorem Piece.append_code (h : Piece target plain u ds) (h' : Code target plain v es) :
    Code target plain (u ++ v) (ds ++ es) := by
  obtain ⟨us, hu, hus⟩ := h
  obtain ⟨vs, hv, hvs⟩ := h'
  exact ⟨us ++ vs, hu.spells hv, hus.append hvs⟩

theorem Code.append (h : Code target plain u ds) (h' : Code target plain v es)
    (hapart : isApart true v = true) : Code target plain (u ++ v) (ds ++ es) := by
  obtain ⟨us, hu, hus⟩ := h
  obtain ⟨vs, hv, hvs⟩ := h'
  exact ⟨us ++ vs, hu.spells hv hapart, hus.append hvs⟩

theorem Code.piece (h : Code target plain u ds) (h' : Piece target plain v es)
    (hapart : isApart true v = true) : Piece target plain (u ++ v) (ds ++ es) := by
  obtain ⟨us, hu, hus⟩ := h
  obtain ⟨vs, hv, hvs⟩ := h'
  exact ⟨us ++ vs, hu.fixed hv hapart, hus.append hvs⟩

theorem Code.tail (h : Code target plain u ds) (h' : Tail target plain v es) :
    Code target plain (u ++ v) (ds ++ es) := by
  obtain ⟨us, hu, hus⟩ := h
  obtain ⟨vs, hv, hvs⟩ := h'
  exact ⟨us ++ vs, hu.trails hv, hus.append hvs⟩

theorem Tail.nil : Tail target plain [] [] := ⟨[], Trails.nil, Carries.nil⟩

theorem Code.toTail (h : Code target plain w ds) (hapart : isApart true w = true) :
    Tail target plain w ds := by
  obtain ⟨ts, hw, hts⟩ := h
  exact ⟨ts, ⟨fun rest _ => apart_append hapart rest, hw⟩, hts⟩

/-- The text between two pieces. -/
theorem Code.between {opening closing : List Char} (h : Code target plain v ds)
    (hopening : Piece target plain opening []) (hclosing : Piece target plain closing [])
    (hapart : isApart true closing = true) : Piece target plain (opening ++ v ++ closing) ds := by
  have hpiece := (hopening.append_code h).piece hclosing hapart
  rwa [List.nil_append, List.append_nil] at hpiece

/-! ## Fixed pieces -/

/-- Whether a token is in every dialect and declares nothing. -/
def Token.isCommon : Token → Bool
  | .keyword word => decide (word ≠ .localWord)
  | .mark m => !m.isRecent
  | .name _ | .string _ => true
  | .numeral _ | .invalid => false

theorem isWithin_of_isCommon {t : Token} (h : t.isCommon = true) : t.isWithin target = true := by
  cases t with
  | mark m =>
    have hrecent : m.isRecent = false := by simpa [Token.isCommon] using h
    simp [Token.isWithin, hrecent]
  | numeral | invalid => cases h
  | keyword | name | string => rfl

theorem carries_of_isCommon (h : ts.all Token.isCommon = true) : Carries target plain ts [] := by
  rw [List.all_eq_true] at h
  refine carries_of_forall (fun t ht => isWithin_of_isCommon (h t ht)) fun _ hlocal => ?_
  exact absurd (h _ hlocal) (by decide)

/-- Whether a text consists of whole tokens that are in every dialect and declare nothing. -/
def isCommonPiece (w : List Char) : Bool :=
  (Lexeme.blank.run w).2.isClosed
    && ((Lexeme.blank.run w).1 ++ (Lexeme.blank.run w).2.tokens).all Token.isCommon

theorem piece_of_isCommon (h : isCommonPiece w = true) : Piece target plain w [] := by
  obtain ⟨hclosed, hall⟩ := (Bool.and_eq_true _ _).mp h
  exact ⟨_, fixed_of_run rfl hclosed, carries_of_isCommon hall⟩

/-- A text that consists of whole tokens and ends in a word. -/
def isCommonCode (w : List Char) : Bool :=
  (Lexeme.blank.run w).2.isWord
    && ((Lexeme.blank.run w).1 ++ (Lexeme.blank.run w).2.tokens).all Token.isCommon

theorem exists_spells_of_isCommon (h : isCommonCode w = true) :
    ∃ ts, Spells false w ts ∧ Carries target plain ts [] := by
  obtain ⟨hword, hall⟩ := (Bool.and_eq_true _ _).mp h
  exact ⟨_, spells_of_run rfl hword, carries_of_isCommon hall⟩

theorem code_of_isCommon (h : isCommonCode w = true) : Code target plain w [] := by
  obtain ⟨ts, hw, hts⟩ := exists_spells_of_isCommon h
  exact ⟨ts, hw.weaken, hts⟩

theorem piece_spaces (k : Nat) : Piece target plain (List.replicate k ' ') [] :=
  ⟨[], fixed_spaces k, Carries.nil⟩

/-! ## Members -/

/-- A name that can be selected. -/
def IsMember (plain : Prop) (name : String) : Prop := isIdentifier name = true ∧ (plain → name ≠ "local")

theorem carries_word {name : String} (h : IsMember plain name) :
    Carries target plain [.ofWord name] [] := by
  have hword : (Token.ofWord name).isWithin target = true := by
    rw [Token.ofWord]
    cases Keyword.ofText? name <;> rfl
  refine carries_of_forall (List.forall_mem_singleton.2 hword) fun hplain hlocal => ?_
  rw [List.mem_singleton, eq_comm, ofWord_eq_local] at hlocal
  exact h.2 hplain hlocal

theorem spells_identifier {name : String} (h : isIdentifier name = true) :
    Spells false name.toList [.ofWord name] := by
  obtain ⟨c, cs, hname, hc, hcs⟩ := exists_of_isIdentifier h
  have hspells := spells_word hc hcs
  rwa [← hname, String.ofList_toList] at hspells

theorem spells_dot_identifier {name : String} (h : isIdentifier name = true) :
    Spells false ('.' :: name.toList) [.mark .dot, .ofWord name] := by
  have hspells := spells_identifier h
  obtain ⟨c, cs, hname, hc, -⟩ := exists_of_isIdentifier h
  rw [hname] at hspells ⊢
  exact spells_mark (m := .dot) rfl (grow?_dot hc) hspells

theorem spells_colon_identifier {name : String} (h : isIdentifier name = true) :
    Spells false (':' :: name.toList) [.mark .colon, .ofWord name] := by
  have hspells := spells_identifier h
  obtain ⟨c, cs, hname, hc, -⟩ := exists_of_isIdentifier h
  rw [hname] at hspells ⊢
  exact spells_mark (m := .colon) rfl (grow?_colon hc) hspells

theorem carries_mark {m : Mark} (h : m.isRecent = false) : Carries target plain [.mark m] [] :=
  carries_of_isCommon (by simp [Token.isCommon, h])

theorem code_colon {name : String} (h : IsMember plain name) :
    Code target plain (':' :: name.toList) [] :=
  ⟨_, (spells_colon_identifier h.1).weaken, (carries_mark (m := .colon) rfl).append (carries_word h)⟩

/-- Accesses to members, one after the other. -/
def path (members : List String) : List Char := members.flatMap fun member => '.' :: member.toList

theorem exists_spells_path (hw : Spells false w ts) (hts : Carries target plain ts ds)
    {members : List String} (hmembers : ∀ member ∈ members, IsMember plain member) :
    ∃ us, Spells false (w ++ path members) us ∧ Carries target plain us ds := by
  induction members generalizing w ts with
  | nil => exact ⟨ts, by simpa [path] using hw, hts⟩
  | cons member members ih =>
    rw [List.forall_mem_cons] at hmembers
    have hdot : Spells false (w ++ '.' :: member.toList) (ts ++ [.mark .dot, .ofWord member]) :=
      hw.spells (spells_dot_identifier hmembers.1.1) rfl
    have hcarries : Carries target plain (ts ++ [.mark .dot, .ofWord member]) (ds ++ []) :=
      hts.append ((carries_mark (m := .dot) rfl).append (carries_word hmembers.1))
    rw [List.append_nil] at hcarries
    obtain ⟨us, hus, hdeclared⟩ := ih hdot hcarries hmembers.2
    exact ⟨us, by simpa [path] using hus, hdeclared⟩

/-! ## Expressions -/

/-- The text of an expression, with any accesses to members behind it. -/
structure Phrase (target : Target) (plain : Prop) (w : List Char) (ds : List (String × Bool)) :
    Prop where
  dotted : ∀ members, (∀ member ∈ members, IsMember plain member) →
    Code target plain (w ++ path members) ds
  opens : ∃ c cs, w = c :: cs ∧ isOpening c = true

theorem Phrase.code (h : Phrase target plain w ds) : Code target plain w ds := by
  have hcode := h.dotted [] nofun
  rwa [path, List.flatMap_nil, List.append_nil] at hcode

theorem phrase_of_spells (hw : Spells false w ts) (hts : Carries target plain ts ds)
    (hopens : ∃ c cs, w = c :: cs ∧ isOpening c = true) : Phrase target plain w ds := by
  refine ⟨fun members hmembers => ?_, hopens⟩
  obtain ⟨us, hus, hcarries⟩ := exists_spells_path hw hts hmembers
  exact ⟨us, hus.weaken, hcarries⟩

theorem Piece.phrase (h : Piece target plain w ds) (hopens : ∃ c cs, w = c :: cs ∧ isOpening c = true) :
    Phrase target plain w ds := by
  obtain ⟨ts, hw, hts⟩ := h
  exact phrase_of_spells (hw.toSpells false) hts hopens

theorem phrase_of_isCommon (h : isCommonCode w = true)
    (hopens : ∃ c cs, w = c :: cs ∧ isOpening c = true) : Phrase target plain w [] := by
  obtain ⟨ts, hw, hts⟩ := exists_spells_of_isCommon h
  exact phrase_of_spells hw hts hopens

theorem phrase_name {name : String} (h : IsMember plain name) : Phrase target plain name.toList [] := by
  obtain ⟨c, cs, hname, hc, -⟩ := exists_of_isIdentifier h.1
  exact phrase_of_spells (spells_identifier h.1) (carries_word h)
    ⟨c, cs, hname, isOpening_of_isLetter hc⟩

theorem Phrase.field {name : String} (h : Phrase target plain w ds) (hname : IsMember plain name) :
    Phrase target plain (w ++ '.' :: name.toList) ds := by
  refine ⟨fun members hmembers => ?_, ?_⟩
  · have hcode := h.dotted (name :: members) (List.forall_mem_cons.2 ⟨hname, hmembers⟩)
    simpa [path] using hcode
  · obtain ⟨c, cs, rfl, hc⟩ := h.opens
    exact ⟨c, cs ++ '.' :: name.toList, rfl, hc⟩

theorem Phrase.bracketed (h : Phrase target plain w ds) :
    Code target plain ('[' :: w) ds := by
  obtain ⟨ts, hw, hts⟩ := h.code
  obtain ⟨c, cs, rfl, hc⟩ := h.opens
  exact ⟨_, hw.bracketed (isOpening_ne hc rfl) (isOpening_ne hc rfl),
    (carries_mark (m := .leftBracket) rfl).append hts⟩

/-- A minus sign before an expression is kept apart from another one. -/
theorem Phrase.minus (h : Phrase target plain w ds) :
    Code target plain ('-' :: (gap "-" w ++ w)) ds := by
  obtain ⟨ts, hw, hts⟩ := h.code
  obtain ⟨c, cs, rfl, -⟩ := h.opens
  exact ⟨_, hw.minus, (carries_mark (m := .minus) rfl).append hts⟩

/-! ## Numerals -/

/-- A text that is read as one number, well-formed or not. -/
structure IsRun (w : List Char) : Prop where
  opens : ∃ c cs, w = c :: cs ∧ c.isDigit = true
  inert : ∀ c ∈ w, (isWordChar c || c == '.') = true

theorem IsRun.path (h : IsRun w) {members : List String}
    (hmembers : ∀ member ∈ members, IsMember plain member) : IsRun (w ++ path members) := by
  obtain ⟨c, cs, rfl, hc⟩ := h.opens
  refine ⟨⟨c, cs ++ _, rfl, hc⟩, fun d hd => ?_⟩
  rcases List.mem_append.1 hd with hd | hd
  · exact h.inert d hd
  · obtain ⟨member, hmember, hd⟩ := List.mem_flatMap.1 hd
    rcases List.mem_cons.1 hd with rfl | hd
    · rfl
    · rw [isWordChar_of_mem (hmembers member hmember).1 hd]
      rfl

theorem IsRun.spells (h : IsRun w) : Spells true w (Lexeme.numeral w).tokens := by
  intro rest hrest
  obtain ⟨c, cs, rfl, hc⟩ := h.opens
  have hgrow : ∀ d ∈ rest.head?, (Lexeme.numeral ([c] ++ cs)).grow? d = none := by
    intro d hd
    simp [Lexeme.grow?, (hrest d hd).1, (hrest d hd).2 rfl]
  show lexFrom (.start c) (cs ++ rest) = _
  rw [start_of_isDigit hc,
    lexFrom_numeral [c] cs rest (fun d hd => h.inert d (List.mem_cons_of_mem c hd)),
    lexFrom_of_grow? hgrow]
  rfl

theorem carries_numeral (h : target ≠ .luaJIT → w.all Char.isDigit = true → fitsInteger w = true) :
    Carries target plain (Lexeme.numeral w).tokens [] := by
  have hnumeral : (Token.numeral (String.ofList w)).isWithin target = true := by
    rw [Token.isWithin, String.toList_ofList]
    by_cases htarget : target = .luaJIT
    · simp [htarget]
    · cases hdigits : w.all Char.isDigit with
      | false => simp
      | true => simp [h htarget hdigits]
  rw [Lexeme.tokens]
  split
  · exact carries_of_forall (List.forall_mem_singleton.2 hnumeral) (by simp)
  · exact carries_of_forall (List.forall_mem_singleton.2 rfl) (by simp)

/-- The digits of a number after its sign. A member behind them spoils the number. -/
theorem phrase_signed (negative : Bool) (h : IsRun w)
    (hfits : target ≠ .luaJIT → w.all Char.isDigit = true → fitsInteger w = true) :
    Phrase target plain (sign negative ++ w) [] := by
  refine ⟨fun members hmembers => ?_, ?_⟩
  · have hrun : Code target plain (w ++ path members) [] := by
      refine ⟨_, (h.path hmembers).spells, carries_numeral fun htarget hdigits => ?_⟩
      cases members with
      | nil =>
        rw [path, List.flatMap_nil, List.append_nil] at hdigits ⊢
        exact hfits htarget hdigits
      | cons member members =>
        simp [path, show Char.isDigit '.' = false from rfl] at hdigits
    obtain ⟨c, cs, hw, hc⟩ := h.opens
    rw [List.append_assoc]
    cases negative with
    | false => exact hrun
    | true =>
      have hminus : c ≠ '-' := by
        rintro rfl
        exact absurd hc (by decide)
      obtain ⟨ts, hts, hcarries⟩ := hrun
      rw [hw] at hts ⊢
      exact ⟨_, spells_mark (m := .minus) rfl (grow?_minus hminus) hts,
        (carries_mark (m := .minus) rfl).append hcarries⟩
  · obtain ⟨c, cs, rfl, hc⟩ := h.opens
    cases negative with
    | false => exact ⟨c, cs, rfl, isOpening_of_isDigit hc⟩
    | true => exact ⟨'-', c :: cs, rfl, rfl⟩

end Texts

end CodeTree.Lua
