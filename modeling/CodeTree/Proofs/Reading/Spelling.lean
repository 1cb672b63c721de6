import CodeTree.Proofs.Reading.Grammar

/-! # Texts that spell tokens

A text spells some tokens when it is cut into them whatever is written behind it, as long as that does
not run into its last token. The statements here are about pieces of text and how they are put
together.

* `Spells numeral w ts`: `w` spells `ts` before all that does not begin with a letter or a digit and,
  if the last token is a numeral, with a point.
* `Fixed w ts`: `w` spells `ts` before anything. -/

namespace CodeTree.Lua

set_option autoImplicit false

/-! ## Running the lexer over a part of a text -/

/-- The tokens that are complete after a part of a text, and the lexeme that it ends in. -/
def Lexeme.run : Lexeme → List Char → List Token × Lexeme
  | l, [] => ([], l)
  | l, c :: cs =>
    match l.grow? c with
    | some l => l.run cs
    | none => (l.tokens ++ ((Lexeme.start c).run cs).1, ((Lexeme.start c).run cs).2)

theorem lexFrom_append (l : Lexeme) (w rest : List Char) :
    lexFrom l (w ++ rest) = (l.run w).1 ++ lexFrom (l.run w).2 rest := by
  induction w generalizing l with
  | nil => rfl
  | cons c cs ih =>
    rw [List.cons_append, lexFrom, Lexeme.run]
    cases l.grow? c with
    | some l => exact ih l
    | none => rw [ih, List.append_assoc]

/-- Whether no character at all belongs to the lexeme. -/
def Lexeme.isClosed : Lexeme → Bool
  | blank => true
  | mark .slash | mark .less | mark .greater | mark .assign | mark .tilde | mark .colon | mark .dot
  | mark .concat | mark .minus | mark .leftBracket => false
  | mark _ => true
  | _ => false

def Lexeme.isWord : Lexeme → Bool
  | word _ => true
  | _ => false

theorem Lexeme.grow?_of_isClosed {l : Lexeme} (h : l.isClosed = true) (c : Char) :
    l.grow? c = none := by
  cases l with
  | blank => rfl
  | mark m => cases m <;> first | rfl | exact nomatch h
  | word | numeral | string | invalid => exact nomatch h

/-! ## Pieces of text -/

/-- What comes behind a piece does not run into its last token. -/
def Apart (numeral : Bool) (rest : List Char) : Prop :=
  ∀ c ∈ rest.head?, isWordChar c = false ∧ (numeral = true → c ≠ '.')

def Spells (numeral : Bool) (w : List Char) (ts : List Token) : Prop :=
  ∀ rest, Apart numeral rest → lex (w ++ rest) = ts ++ lex rest

def Fixed (w : List Char) (ts : List Token) : Prop :=
  ∀ rest, lex (w ++ rest) = ts ++ lex rest

variable {numeral : Bool} {u v w : List Char} {ts us vs : List Token}

theorem Fixed.nil : Fixed [] [] := fun _ => rfl

theorem Fixed.append (hu : Fixed u us) (hv : Fixed v vs) : Fixed (u ++ v) (us ++ vs) := by
  intro rest
  rw [List.append_assoc, hu, hv, List.append_assoc]

theorem Fixed.spells (hu : Fixed u us) (hv : Spells numeral v vs) :
    Spells numeral (u ++ v) (us ++ vs) := by
  intro rest hrest
  rw [List.append_assoc, hu, hv rest hrest, List.append_assoc]

theorem Fixed.toSpells (hu : Fixed u us) (numeral : Bool) : Spells numeral u us := fun rest _ => hu rest

theorem Apart.cons {c : Char} (hc : isWordChar c = false) (hdot : numeral = true → c ≠ '.')
    (rest : List Char) : Apart numeral (c :: rest) := by
  rintro _ ⟨⟩
  exact ⟨hc, hdot⟩

def isApart (numeral : Bool) : List Char → Bool
  | [] => false
  | c :: _ => !isWordChar c && (c != '.' || !numeral)

theorem apart_append (h : isApart numeral v = true) (rest : List Char) : Apart numeral (v ++ rest) := by
  cases v with
  | nil => exact nomatch h
  | cons c cs =>
    simp only [isApart, Bool.and_eq_true, Bool.not_eq_true', Bool.or_eq_true, bne_iff_ne] at h
    refine Apart.cons h.1 (fun hnumeral => ?_) _
    exact h.2.resolve_right (by simp [hnumeral])

theorem Spells.fixed (hu : Spells numeral u us) (hv : Fixed v vs) (h : isApart numeral v = true) :
    Fixed (u ++ v) (us ++ vs) := by
  intro rest
  rw [List.append_assoc, hu _ (apart_append h rest), hv, List.append_assoc]

theorem Spells.spells {numeral' : Bool} (hu : Spells numeral u us) (hv : Spells numeral' v vs)
    (h : isApart numeral v = true) : Spells numeral' (u ++ v) (us ++ vs) := by
  intro rest hrest
  rw [List.append_assoc, hu _ (apart_append h rest), hv rest hrest, List.append_assoc]

theorem Fixed.congr (h : Fixed u us) (hw : w = u) (ht : ts = us) : Fixed w ts := hw ▸ ht ▸ h

theorem Spells.congr (h : Spells numeral u us) (hw : w = u) (ht : ts = us) : Spells numeral w ts :=
  hw ▸ ht ▸ h

/-- A fixed text that ends in a blank or in a mark that does not grow. -/
theorem fixed_of_run (h : (Lexeme.blank.run w).1 ++ (Lexeme.blank.run w).2.tokens = ts)
    (hclosed : (Lexeme.blank.run w).2.isClosed = true) : Fixed w ts := by
  intro rest
  rw [lex, lexFrom_append, lexFrom_of_grow? fun c _ => Lexeme.grow?_of_isClosed hclosed c,
    ← List.append_assoc, h]

theorem spells_of_run (h : (Lexeme.blank.run w).1 ++ (Lexeme.blank.run w).2.tokens = ts)
    (hword : (Lexeme.blank.run w).2.isWord = true) : Spells false w ts := by
  intro rest hrest
  have hgrow : ∀ c ∈ rest.head?, (Lexeme.blank.run w).2.grow? c = none := by
    intro c hc
    match hl : (Lexeme.blank.run w).2 with
    | .word text => simp [Lexeme.grow?, (hrest c hc).1]
    | .blank | .numeral _ | .mark _ | .string _ _ | .invalid =>
      rw [hl] at hword
      exact nomatch hword
  rw [lex, lexFrom_append, lexFrom_of_grow? hgrow, ← List.append_assoc, h]

theorem lex_mark {c : Char} {m : Mark} {rest : List Char} (hstart : Lexeme.start c = .mark m)
    (h : ∀ d ∈ rest.head?, (Lexeme.mark m).grow? d = none) :
    lex (c :: rest) = .mark m :: lex rest := by
  show lexFrom (.start c) rest = _
  rw [hstart, lexFrom_of_grow? h]
  rfl

theorem spells_mark {c d : Char} {m : Mark} (hstart : Lexeme.start c = .mark m)
    (hd : (Lexeme.mark m).grow? d = none) (hv : Spells numeral (d :: v) vs) :
    Spells numeral (c :: d :: v) (.mark m :: vs) := by
  intro rest hrest
  rw [List.cons_append, lex_mark hstart (by rintro _ ⟨⟩; exact hd), hv rest hrest, List.cons_append]

theorem grow?_minus {c : Char} (h : c ≠ '-') : (Lexeme.mark .minus).grow? c = none := by
  have hwrong : Mark.minus.goesWrong c = false := by
    unfold Mark.goesWrong
    split <;> simp_all
  simp [Lexeme.grow?, hwrong, Mark.grow?]

/-! ## Words -/

theorem start_of_isLetter {c : Char} (h : isLetter c = true) : Lexeme.start c = .word [c] := by
  have hblank : Lexeme.isBlank c = false := by
    rw [Bool.eq_false_iff]
    intro hblank
    simp only [Lexeme.isBlank, Bool.or_eq_true, beq_iff_eq] at hblank
    rcases hblank with ((rfl | rfl) | rfl) | rfl <;> exact absurd h (by decide)
  simp [Lexeme.start, hblank, h]

theorem spells_word {c : Char} {cs : List Char} (hc : isLetter c = true)
    (hcs : ∀ d ∈ cs, isWordChar d = true) :
    Spells false (c :: cs) [.ofWord (String.ofList (c :: cs))] := by
  intro rest hrest
  have hgrow : ∀ d ∈ rest.head?, (Lexeme.word ([c] ++ cs)).grow? d = none := by
    intro d hd
    simp [Lexeme.grow?, (hrest d hd).1]
  show lexFrom (.start c) (cs ++ rest) = _
  rw [start_of_isLetter hc, lexFrom_word [c] cs rest hcs, lexFrom_of_grow? hgrow]
  rfl

theorem isIdentifier_of_isName {name : String} (h : isName name = true) : isIdentifier name = true :=
  (Bool.and_eq_true_iff.1 h).1

theorem spells_name {name : String} (h : isName name = true) :
    Spells false name.toList [.name name] := by
  obtain ⟨c, cs, hname, hc, hcs⟩ := exists_of_isIdentifier (isIdentifier_of_isName h)
  have hword : Token.ofWord name = .name name := by
    have hreserved : Keyword.ofText? name = none := by
      simpa using (Bool.and_eq_true_iff.1 h).2
    simp [Token.ofWord, hreserved]
  have hspells := spells_word hc hcs
  rwa [← hname, String.ofList_toList, hword] at hspells

/-! ## Numerals -/

theorem not_isLetter_of_isDigit {c : Char} (h : c.isDigit = true) : isLetter c = false := by
  rw [Bool.eq_false_iff]
  intro hletter
  simp only [Char.isDigit, Bool.and_eq_true, decide_eq_true_eq, ge_iff_le] at h
  have hranges : (decide ('A'.val ≤ c.val ∧ c.val ≤ 'Z'.val) ||
      (decide ('a'.val ≤ c.val) && decide (c.val ≤ 'z'.val)) || c == '_') = true := hletter
  simp only [Bool.or_eq_true, Bool.and_eq_true, decide_eq_true_eq, beq_iff_eq] at hranges
  rcases hranges with (hupper | hlower) | rfl
  · exact absurd (UInt32.le_trans hupper.1 h.2) (by decide)
  · exact absurd (UInt32.le_trans hlower.1 h.2) (by decide)
  · exact absurd h.2 (by decide)

theorem start_of_isDigit {c : Char} (h : c.isDigit = true) : Lexeme.start c = .numeral [c] := by
  have hblank : Lexeme.isBlank c = false := by
    rw [Bool.eq_false_iff]
    intro hblank
    simp only [Lexeme.isBlank, Bool.or_eq_true, beq_iff_eq] at hblank
    rcases hblank with ((rfl | rfl) | rfl) | rfl <;> exact absurd h (by decide)
  simp [Lexeme.start, hblank, not_isLetter_of_isDigit h, h]

theorem spells_numeral {c : Char} {cs : List Char} (hc : c.isDigit = true)
    (hcs : ∀ d ∈ cs, (isWordChar d || d == '.') = true) (hnumeral : isNumeral (c :: cs) = true) :
    Spells true (c :: cs) [.numeral (String.ofList (c :: cs))] := by
  intro rest hrest
  have hgrow : ∀ d ∈ rest.head?, (Lexeme.numeral ([c] ++ cs)).grow? d = none := by
    intro d hd
    simp [Lexeme.grow?, (hrest d hd).1, (hrest d hd).2 rfl]
  show lexFrom (.start c) (cs ++ rest) = _
  rw [start_of_isDigit hc, lexFrom_numeral [c] cs rest hcs, lexFrom_of_grow? hgrow]
  simp [Lexeme.tokens, hnumeral]

theorem dropWhile_isDigit {text : List Char} (h : ∀ c ∈ text, c.isDigit = true) (rest : List Char) :
    (text ++ rest).dropWhile Char.isDigit = rest.dropWhile Char.isDigit := by
  induction text with
  | nil => rfl
  | cons c cs ih =>
    rw [List.forall_mem_cons] at h
    rw [List.cons_append, List.dropWhile_cons_of_pos h.1, ih h.2]

theorem isNumeral_of_isDigits (h : IsDigits w) : isNumeral w = true := by
  have hdrop := dropWhile_isDigit h.isDigit []
  rw [List.append_nil] at hdrop
  simp [isNumeral, hdrop]

theorem isNumeral_of_isPositional (h : IsPositional w) : isNumeral w = true := by
  obtain ⟨whole, fraction, hwhole, hfraction, rfl⟩ := h
  rw [isNumeral, dropWhile_isDigit hwhole.isDigit]
  have hall : fraction.all Char.isDigit = true := List.all_eq_true.2 hfraction.isDigit
  simp [List.dropWhile, hfraction.ne_nil, hall, show Char.isDigit '.' = false from rfl]

theorem spells_digits (h : IsDigits w) : Spells true w [.numeral (String.ofList w)] := by
  have hnumeral := isNumeral_of_isDigits h
  cases w with
  | nil => exact absurd rfl h.ne_nil
  | cons c cs =>
    have hall := List.forall_mem_cons.1 h.isDigit
    exact spells_numeral hall.1 (fun d hd => by simp [isWordChar_of_isDigit (hall.2 d hd)]) hnumeral

theorem spells_positional (h : IsPositional w) : Spells true w [.numeral (String.ofList w)] := by
  have hnumeral := isNumeral_of_isPositional h
  obtain ⟨whole, fraction, hwhole, hfraction, rfl⟩ := h
  obtain ⟨c, cs, rfl⟩ := List.exists_cons_of_ne_nil hwhole.ne_nil
  have hall := List.forall_mem_cons.1 hwhole.isDigit
  refine spells_numeral hall.1 (fun d hd => ?_) hnumeral
  rcases List.mem_append.1 hd with hd | hd
  · simp [isWordChar_of_isDigit (hall.2 d hd)]
  · rcases List.mem_cons.1 hd with rfl | hd
    · rfl
    · simp [isWordChar_of_isDigit (hfraction.isDigit d hd)]

/-! ## Strings -/

theorem fixed_quote (text : String) :
    Fixed (quote text).toList [.string (bytesOf text.toList)] := by
  have hquote : (quote text).toList = '"' :: (text.toList.flatMap escapeChar ++ ['"']) := by
    simp [quote, escape]
  intro rest
  rw [hquote]
  exact lexFrom_string (fun b => by simp) (foldl_step_quote text.toList) rest

end CodeTree.Lua
