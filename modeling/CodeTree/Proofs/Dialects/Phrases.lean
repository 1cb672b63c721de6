import CodeTree.Proofs.Dialects.Tokens
import CodeTree.Proofs.Meaning.Preservation

/-! # Forms of text within a dialect

Each form of text that the emitter puts together has tokens of the dialect only, given that its parts
do, and declares the locals of its parts and its own.

* `phrase_literalText`, `phrase_form`, `phrase_accessText`: forms of expressions.
* `Items`: lists of expressions.
* `Code.line`, `rows_local` and the like: lines. -/

namespace CodeTree.Lua

set_option autoImplicit false

section Forms

variable {target : Target} {plain : Prop} {ts us vs : List Token} {ds es : List (String × Bool)}
  {u v w : List Char}

/-! ## Literals -/

theorem IsDigits.isRun (h : IsDigits w) : IsRun w := by
  obtain ⟨c, cs, rfl⟩ := List.exists_cons_of_ne_nil h.ne_nil
  refine ⟨⟨c, cs, rfl, h.isDigit c List.mem_cons_self⟩, fun d hd => ?_⟩
  simp [isWordChar_of_isDigit (h.isDigit d hd)]

theorem IsPositional.isRun (h : IsPositional w) : IsRun w := by
  obtain ⟨whole, fraction, hwhole, hfraction, rfl⟩ := h
  obtain ⟨c, cs, rfl, hc⟩ := hwhole.isRun.opens
  refine ⟨⟨c, cs ++ '.' :: fraction, rfl, hc⟩, fun d hd => ?_⟩
  rcases List.mem_append.1 hd with hd | hd
  · exact hwhole.isRun.inert d hd
  · rcases List.mem_cons.1 hd with rfl | hd
    · rfl
    · exact hfraction.isRun.inert d hd

theorem IsPositional.all_isDigit (h : IsPositional w) : w.all Char.isDigit = false := by
  obtain ⟨whole, fraction, -, -, rfl⟩ := h
  simp [show Char.isDigit '.' = false from rfl]

/-- The least integer is not written in digits where digits are read as an integer. -/
theorem phrase_integerText (target : Target) (value : Int64) :
    Phrase target plain (integerText target value).toList [] := by
  rw [integerText]
  split
  · exact phrase_of_isCommon rfl ⟨_, _, rfl, rfl⟩
  · rename_i hleast
    rw [toList_integerText]
    refine phrase_signed _ (isDigits_toDigits _).isRun fun htarget _ => ?_
    have hvalue : value ≠ Int64.minValue := fun h => hleast ⟨h, decide_eq_true htarget⟩
    rw [fitsInteger, Nat.ofDigitChars_ten_toDigits]
    exact decide_eq_true (natAbs_lt_of_ne_minValue hvalue)

theorem phrase_floatText (target : Target) (value : Binary64) :
    Phrase target plain (floatText value).toList [] := by
  by_cases hnan : value.isNaN = true
  · have hfixed : Fixed "(0/0)".toList
        [.mark .leftParen, .numeral "0", .mark .slash, .numeral "0", .mark .rightParen] :=
      fixed_of_run rfl rfl
    have hcarries : Carries target plain
        [.mark .leftParen, .numeral "0", .mark .slash, .numeral "0", .mark .rightParen] [] :=
      carries_of_forall (by cases target <;> decide) fun _ => by decide
    rw [floatText, if_pos hnan]
    exact phrase_of_spells (hfixed.toSpells false) hcarries ⟨'(', _, rfl, rfl⟩
  · rw [Bool.not_eq_true] at hnan
    by_cases hinfinite : value.isInfinite = true
    · simp only [floatText, hnan, hinfinite, Bool.false_eq_true, if_false, if_true]
      cases value.isNegative
      · exact phrase_of_isCommon rfl ⟨'m', _, rfl, rfl⟩
      · exact phrase_of_isCommon rfl ⟨'-', _, rfl, rfl⟩
    · rw [Bool.not_eq_true] at hinfinite
      have hpositional := isPositional_positional value.shortest
      rw [toList_floatText hnan hinfinite]
      refine phrase_signed _ hpositional.isRun fun _ hdigits => ?_
      rw [hpositional.all_isDigit] at hdigits
      cases hdigits

theorem phrase_literalText (target : Target) (l : Literal) :
    Phrase target plain (literalText target l).toList [] := by
  have hquote : ∀ text : String, Phrase target plain (quote text).toList [] := fun text =>
    phrase_of_spells ((fixed_quote text).toSpells false) (carries_of_isCommon rfl)
      ⟨'"', _, by simp [quote]; rfl, rfl⟩
  cases l with
  | string value => exact hquote value
  | character value => exact hquote (String.singleton value)
  | integer value => exact phrase_integerText target value
  | float value => exact phrase_floatText target value
  | boolean value =>
    have htrue : Phrase target plain "true".toList [] := phrase_of_isCommon rfl ⟨'t', _, rfl, rfl⟩
    have hfalse : Phrase target plain "false".toList [] := phrase_of_isCommon rfl ⟨'f', _, rfl, rfl⟩
    cases value
    · exact hfalse
    · exact htrue

/-! ## Operations -/

theorem piece_openParen : Piece target plain ['('] [] := piece_of_isCommon rfl

theorem piece_closeParen : Piece target plain [')'] [] := piece_of_isCommon rfl

theorem Code.parenthesized (h : Code target plain v ds) :
    Piece target plain ('(' :: v ++ [')']) ds :=
  h.between piece_openParen piece_closeParen rfl

theorem phrase_of_piece_paren (h : Piece target plain ('(' :: w) ds) :
    Phrase target plain ('(' :: w) ds :=
  h.phrase ⟨'(', w, rfl, rfl⟩

theorem Phrase.negated (h : Phrase target plain v ds) :
    Phrase target plain ('(' :: "-".toList ++ gap "-" v ++ v ++ [')']) ds := by
  have hpiece := h.minus.parenthesized
  refine phrase_of_piece_paren ?_
  simpa using hpiece

theorem Phrase.notted (h : Phrase target plain v ds) :
    Phrase target plain ('(' :: "not ".toList ++ gap "not " v ++ v ++ [')']) ds := by
  have hnot : Piece target plain "(not ".toList [] := piece_of_isCommon rfl
  have hpiece := h.code.between hnot piece_closeParen rfl
  refine phrase_of_piece_paren ?_
  rw [gap, if_neg (by rintro ⟨hend, -⟩; exact absurd hend (by decide))]
  simpa using hpiece

/-- Whether a text consists of whole tokens that are in a dialect and declare nothing. -/
def isPiece (target : Target) (w : List Char) : Bool :=
  (Lexeme.blank.run w).2.isClosed
    && ((Lexeme.blank.run w).1 ++ (Lexeme.blank.run w).2.tokens).all fun t =>
      t.isWithin target && decide (t ≠ .keyword .localWord)

theorem piece_of_isPiece (h : isPiece target w = true) : Piece target plain w [] := by
  obtain ⟨hclosed, hall⟩ := (Bool.and_eq_true _ _).mp h
  simp only [List.all_eq_true, Bool.and_eq_true, decide_eq_true_eq] at hall
  exact ⟨_, fixed_of_run rfl hclosed, carries_of_forall (fun t ht => (hall t ht).1)
    fun _ hlocal => (hall _ hlocal).2 rfl⟩

/-- Whether the text around two operands is in a dialect. -/
def BinaryForm.isWithin (target : Target) (form : BinaryForm) : Bool :=
  isPiece target form.opening.toList && form.opening.toList.head?.any isOpening
    && isPiece target form.between.toList && isApart true form.between.toList
    && isPiece target form.closing.toList && isApart true form.closing.toList

/-- Every operation is written with what the dialect has. -/
theorem isWithin_of_standard {kind : BinaryKind} {form : BinaryForm}
    (h : binaryForm target (.standard kind) = .ok form) : form.isWithin target = true := by
  have hall : ∀ form ∈ (binaryForm target (.standard kind)).toOption,
      form.isWithin target = true := by
    cases target <;> cases kind <;> decide
  exact hall form (by simp [h, Except.toOption])

theorem phrase_form {kind : BinaryKind} {form : BinaryForm}
    (h : binaryForm target (.standard kind) = .ok form) (hu : Phrase target plain u ds)
    (hv : Phrase target plain v es) : Phrase target plain
      (form.opening.toList ++ u ++ form.between.toList ++ v ++ form.closing.toList) (ds ++ es) := by
  have hwithin := isWithin_of_standard h
  simp only [BinaryForm.isWithin, Bool.and_eq_true] at hwithin
  obtain ⟨⟨⟨⟨⟨hopening, hopens⟩, hbetween⟩, hapart⟩, hclosing⟩, hclose⟩ := hwithin
  have hleft := ((piece_of_isPiece hopening).append_code hu.code).piece (piece_of_isPiece hbetween) hapart
  have hpiece := (hleft.append_code hv.code).piece (piece_of_isPiece hclosing) hclose
  rw [List.nil_append, List.append_nil, List.append_nil] at hpiece
  refine hpiece.phrase ?_
  cases hhead : form.opening.toList with
  | nil =>
    rw [hhead] at hopens
    cases hopens
  | cons c cs =>
    refine ⟨c, _, by simp; rfl, ?_⟩
    simpa [hhead] using hopens

theorem phrase_assigned (h : Phrase target plain v ds) (inverted : Bool) :
    Phrase target plain ('(' :: v ++ (if inverted then " == nil)" else " ~= nil)").toList) ds := by
  have hclosing : Piece target plain (if inverted then " == nil)" else " ~= nil)").toList [] ∧
      isApart true (if inverted then " == nil)" else " ~= nil)").toList = true := by
    cases inverted <;> exact ⟨piece_of_isCommon rfl, rfl⟩
  exact (h.code.between piece_openParen hclosing.1 hclosing.2).phrase ⟨'(', _, rfl, rfl⟩

/-! ## Accesses -/

/-- What follows the name of a member: nothing, or arguments in parentheses. -/
inductive CallText (target : Target) (plain : Prop) : Char → List Char → List (String × Bool) → Prop
  | none : CallText target plain '.' [] []
  | some {operator : Char} {v : List Char} {ds : List (String × Bool)}
      (hoperator : operator = '.' ∨ operator = ':') (h : Code target plain v ds) :
      CallText target plain operator ('(' :: v ++ [')']) ds

theorem Phrase.access {operator : Char} {member : String} {call : List Char}
    (h : Phrase target plain u ds) (hmember : IsMember plain member)
    (hcall : CallText target plain operator call es) :
    Phrase target plain (u ++ operator :: member.toList ++ call) (ds ++ es) := by
  cases hcall with
  | none =>
    rw [List.append_nil, List.append_nil]
    exact h.field hmember
  | some hoperator hv =>
    have hselected : Code target plain (u ++ operator :: member.toList) (ds ++ []) := by
      rcases hoperator with rfl | rfl
      · rw [List.append_nil]
        exact (h.field hmember).code
      · exact h.code.append (code_colon hmember) rfl
    rw [List.append_nil] at hselected
    refine (hselected.piece hv.parenthesized rfl).phrase ?_
    obtain ⟨c, cs, rfl, hc⟩ := h.opens
    exact ⟨c, _, rfl, hc⟩

theorem isMember_of_fixed {name : String} (h : isIdentifier name = true) (hlocal : name ≠ "local") :
    IsMember plain name := ⟨h, fun _ => hlocal⟩

theorem phrase_t : Phrase target plain "t".toList [] :=
  phrase_name (isMember_of_fixed rfl (by decide))

theorem code_guardText {nilSafe optional : Bool} {member : String} (h : IsMember plain member)
    (hguarded : (nilSafe || optional) = true) :
    Code target plain (guardText nilSafe optional member).toList [] := by
  have hnil : Code target plain "t == nil".toList [] := code_of_isCommon rfl
  have hequals : Code target plain " == nil".toList [] := code_of_isCommon rfl
  have hmember : Code target plain ("t." ++ member ++ " == nil").toList [] := by
    have hcode := (phrase_t.field h).code.append hequals rfl
    simpa using hcode
  cases nilSafe <;> cases optional
  · cases hguarded
  · simpa [guardText] using hmember
  · simpa [guardText] using hnil
  · have hor : Piece target plain "t == nil or ".toList [] := piece_of_isCommon rfl
    have hboth := hor.append_code hmember
    simpa [guardText] using hboth

/-- A guarded access has its arguments before its site. -/
theorem phrase_accessText {guarded : Bool} {guard member : String} {operator : Char}
    {call : List Char} (hguard : guarded = true → Code target plain guard.toList [])
    (hmember : IsMember plain member) (hu : Phrase target plain u ds)
    (hcall : CallText target plain operator call es) :
    Phrase target plain (accessText guarded guard operator member u call)
      (if guarded then es ++ ds else ds ++ es) := by
  cases guarded with
  | false => exact hu.access hmember hcall
  | true =>
    have hopening : Piece target plain "(function(t) if ".toList [] := piece_of_isCommon rfl
    have hreturn : Piece target plain " then return nil end return ".toList [] := piece_of_isCommon rfl
    have hcalled : Piece target plain " end)(".toList [] := piece_of_isCommon rfl
    have hguarded := ((hopening.append_code (hguard rfl)).piece hreturn rfl).append_code
      (phrase_t.access hmember hcall).code
    have hpiece := ((hguarded.piece hcalled rfl).append_code hu.code).piece piece_closeParen rfl
    rw [accessText, if_pos rfl, if_pos rfl]
    refine Piece.phrase ?_ ⟨'(', _, rfl, rfl⟩
    simpa using hpiece

/-! ## Constructions -/

theorem declaredLocals_local {name : String} (hname : name ≠ "local")
    (hts : .keyword .localWord ∉ ts) (us : List Token) :
    declaredLocals (.keyword .localWord :: .ofWord name :: ts ++ us) =
      (name, opensAttribute (ts ++ us)) :: declaredLocals us := by
  have hword : .keyword .localWord ∉ Token.ofWord name :: ts := by
    rw [List.mem_cons, not_or, eq_comm, ofWord_eq_local]
    exact ⟨hname, hts⟩
  have hrest : declaredLocals (.ofWord name :: ts ++ us) = declaredLocals us :=
    declaredLocals_append hword
  rw [List.cons_append] at hrest
  rw [List.cons_append, List.cons_append, declaredLocals, if_pos rfl, hrest]
  simp [word?_ofWord]

/-- The declaration of the object under construction. -/
theorem piece_object : Piece target plain "(function() local o = ".toList [("o", false)] := by
  have hfixed : Fixed "(function() local o = ".toList
      [.mark .leftParen, .keyword .functionWord, .mark .leftParen, .mark .rightParen,
        .keyword .localWord, .name "o", .mark .assign] := fixed_of_run rfl rfl
  exact ⟨_, hfixed, by cases target <;> decide, fun _ _ => rfl⟩

theorem Phrase.creation {typeName name : String} (htype : IsMember plain typeName)
    (hname : IsMember plain name) (hv : Code target plain v ds) :
    Phrase target plain (constructorText typeName name ++ v ++ [')']) ds := by
  have htypeName : Phrase target plain typeName.toList [] := phrase_name htype
  have hphrase := htypeName.access hname (.some (Or.inl rfl) hv)
  simpa [constructorText] using hphrase

theorem Phrase.initialized (h : Phrase target plain v ds) (hu : Tail target plain u es) :
    Phrase target plain ("(function() local o = ".toList ++ v ++ u ++ "; return o end)()".toList)
      (("o", false) :: (ds ++ es)) := by
  have hclosing : Piece target plain "; return o end)()".toList [] := piece_of_isCommon rfl
  have hpiece := ((piece_object.append_code h.code).tail hu).piece hclosing rfl
  refine Piece.phrase ?_ ⟨'(', _, rfl, rfl⟩
  simpa using hpiece

theorem tail_initializer {property : String} (hproperty : IsMember plain property)
    (hv : Phrase target plain v ds) (hu : Tail target plain u es) :
    Tail target plain ("; o.".toList ++ property.toList ++ " = ".toList ++ v ++ u) (ds ++ es) := by
  have hsemicolon : Piece target plain "; ".toList [] := piece_of_isCommon rfl
  have hequals : Piece target plain " = ".toList [] := piece_of_isCommon rfl
  have ho : Phrase target plain "o".toList [] := phrase_name (isMember_of_fixed rfl (by decide))
  have hassigned := (hsemicolon.append_code (ho.field hproperty).code).piece hequals rfl
  have hcode := (hassigned.append_code hv.code).tail hu
  refine Code.toTail ?_ rfl
  simpa using hcode

/-! ## Lists -/

/-- Indices behind an expression. -/
def Brackets (target : Target) (plain : Prop) (w : List Char) (ds : List (String × Bool)) : Prop :=
  (w = [] ∧ ds = []) ∨ ∃ v, w = '[' :: v ∧ Piece target plain w ds

theorem Brackets.nil : Brackets target plain [] [] := Or.inl ⟨rfl, rfl⟩

theorem Phrase.brackets (h : Phrase target plain v ds) (hu : Brackets target plain u es) :
    Brackets target plain ('[' :: v ++ ']' :: u) (ds ++ es) := by
  have hindex : Piece target plain ('[' :: v ++ [']']) (ds ++ []) :=
    h.bracketed.piece (piece_of_isCommon rfl) rfl
  rw [List.append_nil] at hindex
  refine Or.inr ⟨v ++ ']' :: u, rfl, ?_⟩
  rcases hu with ⟨rfl, rfl⟩ | ⟨_, -, hu⟩
  · rwa [List.append_nil]
  · simpa using hindex.append hu

theorem Phrase.indexed (h : Phrase target plain v ds) (hu : Brackets target plain u es) :
    Phrase target plain (v ++ u) (ds ++ es) := by
  rcases hu with ⟨rfl, rfl⟩ | ⟨u, rfl, hu⟩
  · rwa [List.append_nil, List.append_nil]
  · obtain ⟨c, cs, rfl, hc⟩ := h.opens
    exact (h.code.piece hu rfl).phrase ⟨c, _, rfl, hc⟩

/-- A list, from its first element or from a further one. -/
def Items (target : Target) (plain : Prop) (isFirst : Bool) (w : List Char)
    (ds : List (String × Bool)) : Prop :=
  if isFirst then Code target plain w ds else Tail target plain w ds

theorem Items.nil (isFirst : Bool) : Items target plain isFirst [] [] := by
  cases isFirst
  · exact Tail.nil
  · exact ⟨[], Fixed.nil.toSpells true, Carries.nil⟩

theorem Code.items (isFirst : Bool) (h : Code target plain v ds)
    (hvs : Items target plain false w es) :
    Items target plain isFirst (comma isFirst ++ v ++ w) (ds ++ es) := by
  have hcode := h.tail (hvs : Tail target plain w es)
  cases isFirst
  · have hcomma : Piece target plain [',', ' '] [] := piece_of_isCommon rfl
    refine Code.toTail ?_ rfl
    simpa [comma] using hcomma.append_code hcode
  · exact hcode

/-- An entry of a dictionary. -/
theorem Phrase.entry (h : Phrase target plain u ds) (hv : Phrase target plain v es) :
    Code target plain ('[' :: u ++ "] = ".toList ++ v) (ds ++ es) := by
  have hequals : Piece target plain "] = ".toList [] := piece_of_isCommon rfl
  have hcode := (h.bracketed.piece hequals rfl).append_code hv.code
  rwa [List.append_nil] at hcode

theorem Code.braced (h : Code target plain v ds) : Phrase target plain ('{' :: v ++ ['}']) ds := by
  have hopening : Piece target plain ['{'] [] := piece_of_isCommon rfl
  have hclosing : Piece target plain ['}'] [] := piece_of_isCommon rfl
  exact (h.between hopening hclosing rfl).phrase ⟨'{', _, rfl, rfl⟩

theorem items_parameterNames {g : Setting} {n : Nat} {isFirst : Bool} {parameters : List Parameter}
    (h : ∀ p ∈ parameters, ∀ name ∈ g.names.resolve p.name, IsMember plain name)
    (hw : Yields (emitParameterNames g isFirst parameters) n () w) :
    Items target plain isFirst w [] := by
  induction parameters generalizing isFirst w with
  | nil =>
    rw [yields_emitParameterNames_nil.1 hw]
    exact Items.nil isFirst
  | cons p parameters ih =>
    obtain ⟨-, name, v, hname, hv, rfl⟩ := yields_emitParameterNames_cons.1 hw
    rw [List.forall_mem_cons] at h
    exact (phrase_name (h.1 name hname)).code.items isFirst (ih h.2 hv)

/-! ## Lines -/

/-- A lexeme that does not begin as `<` does not become it. -/
theorem ne_less_of_grow? {l l' : Lexeme} {c : Char} (h : l.grow? c = some l') (hblank : l ≠ .blank) :
    l' ≠ .blank ∧ l' ≠ .mark .less := by
  cases l with
  | blank => exact absurd rfl hblank
  | word text =>
    obtain ⟨-, rfl⟩ : isWordChar c = true ∧ Lexeme.word (text ++ [c]) = l' := by
      simpa [Lexeme.grow?] using h
    simp
  | numeral text =>
    obtain ⟨-, rfl⟩ : (isWordChar c = true ∨ c = '.') ∧ Lexeme.numeral (text ++ [c]) = l' := by
      simpa [Lexeme.grow?] using h
    simp
  | mark m =>
    rw [Lexeme.grow?] at h
    by_cases hwrong : m.goesWrong c = true
    · rw [if_pos hwrong] at h
      cases h
      simp
    · rw [if_neg hwrong] at h
      obtain ⟨m', hm', rfl⟩ := Option.map_eq_some_iff.1 h
      have hless : m' ≠ .less := by
        rintro rfl
        unfold Mark.grow? at hm'
        split at hm' <;> cases hm'
      simpa using hless
  | string quote reading =>
    cases reading <;> cases h <;> simp
  | invalid =>
    cases h
    simp

theorem opensAttribute_lexFrom {l : Lexeme} (hblank : l ≠ .blank) (hless : l ≠ .mark .less)
    (text : List Char) : opensAttribute (lexFrom l text) = false := by
  have htokens : ∀ {l : Lexeme}, l ≠ .blank → l ≠ .mark .less → ∀ rest,
      opensAttribute (l.tokens ++ rest) = false := by
    intro l hblank hless rest
    cases l with
    | blank => exact absurd rfl hblank
    | word text =>
      rw [Lexeme.tokens, Token.ofWord]
      cases Keyword.ofText? (String.ofList text) <;> rfl
    | numeral text =>
      rw [Lexeme.tokens]
      split <;> rfl
    | mark m => simpa [Lexeme.tokens, opensAttribute] using hless
    | string quote reading => cases reading <;> rfl
    | invalid => rfl
  induction text generalizing l with
  | nil => simpa [lexFrom] using htokens hblank hless []
  | cons c cs ih =>
    rw [lexFrom]
    cases hgrow : l.grow? c with
    | none => exact htokens hblank hless _
    | some l' =>
      obtain ⟨hblank', hless'⟩ := ne_less_of_grow? hgrow hblank
      exact ih hblank' hless'

/-- Whether a text begins with neither white space nor `<`. -/
def startsLine (w : List Char) : Bool := w.head?.any fun c => !Lexeme.isBlank c && c != '<'

theorem opensAttribute_lex (h : startsLine w = true) : opensAttribute (lex w) = false := by
  cases w with
  | nil => cases h
  | cons c cs =>
    obtain ⟨hblank, hless⟩ : Lexeme.isBlank c = false ∧ c ≠ '<' := by simpa [startsLine] using h
    have hmark : Mark.ofChar? c ≠ some .less := by
      unfold Mark.ofChar?
      split <;> simp_all
    refine opensAttribute_lexFrom (l := .start c) ?_ ?_ cs
    · rw [Lexeme.start, hblank]
      repeat' split
      all_goals simp_all
    · rw [Lexeme.start, hblank]
      repeat' split
      all_goals simp_all

theorem startsLine_of_isOpening (h : ∃ c cs, w = c :: cs ∧ isOpening c = true) (v : List Char) :
    startsLine (w ++ v) = true := by
  obtain ⟨c, cs, rfl, hc⟩ := h
  have hless : c ≠ '<' := isOpening_ne hc rfl
  have hblank : Lexeme.isBlank c = false := by
    rw [Bool.eq_false_iff]
    intro hblank
    simp only [Lexeme.isBlank, Bool.or_eq_true, beq_iff_eq] at hblank
    rcases hblank with ((rfl | rfl) | rfl) | rfl <;> exact absurd hc (by decide)
  simp [startsLine, hblank, hless]

/-- What the tokens of whole lines add, before anything that is no attribute. -/
structure CarriesRows (target : Target) (plain : Prop) (ts : List Token)
    (ds : List (String × Bool)) : Prop where
  within : ∀ t ∈ ts, t.isWithin target = true
  apart : ∀ us, opensAttribute us = false → opensAttribute (ts ++ us) = false
  declared : plain → ∀ us, opensAttribute us = false →
    declaredLocals (ts ++ us) = marked target ds ++ declaredLocals us

/-- The text of whole lines. -/
def Rows (target : Target) (plain : Prop) (w : List Char) (ds : List (String × Bool)) : Prop :=
  ∃ ts, Fixed w ts ∧ CarriesRows target plain ts ds

theorem Rows.nil : Rows target plain [] [] :=
  ⟨[], Fixed.nil, nofun, fun _ h => h, fun _ _ _ => rfl⟩

theorem Rows.append (h : Rows target plain u ds) (h' : Rows target plain v es) :
    Rows target plain (u ++ v) (ds ++ es) := by
  obtain ⟨us, hu, hus⟩ := h
  obtain ⟨vs, hv, hvs⟩ := h'
  refine ⟨us ++ vs, hu.append hv, List.forall_mem_append.2 ⟨hus.within, hvs.within⟩,
    fun rest hrest => ?_, fun hplain rest hrest => ?_⟩
  · rw [List.append_assoc]
    exact hus.apart _ (hvs.apart rest hrest)
  · rw [List.append_assoc, hus.declared hplain _ (hvs.apart rest hrest),
      hvs.declared hplain rest hrest, marked_append, List.append_assoc]

theorem Piece.rows (h : Piece target plain w ds) (hopens : opensAttribute (lex w) = false) :
    Rows target plain w ds := by
  obtain ⟨ts, hw, hts⟩ := h
  refine ⟨ts, hw, hts.within, fun us hus => ?_, fun hplain us _ => hts.declared hplain us⟩
  have hlex : lex w = ts := by simpa using hw []
  rw [hlex] at hopens
  cases ts with
  | nil => exact hus
  | cons t ts => exact hopens

theorem lex_spaces (k : Nat) (w : List Char) : lex (List.replicate k ' ' ++ w) = lex w :=
  fixed_spaces k w

/-- A line of code. -/
theorem Code.line (h : Code target plain v ds) (hstart : startsLine v = true) (k : Nat) :
    Rows target plain (List.replicate k ' ' ++ v ++ ['\n']) ds := by
  have hnewline : Piece target plain ['\n'] [] := piece_of_isCommon rfl
  have hpiece := (((piece_spaces k).append_code h).piece hnewline rfl)
  rw [List.nil_append, List.append_nil] at hpiece
  refine hpiece.rows ?_
  rw [List.append_assoc, lex_spaces]
  refine opensAttribute_lex ?_
  cases v with
  | nil => cases hstart
  | cons c cs => exact hstart

/-- Lines that end with a word. -/
theorem Rows.ended (h : Rows target plain w ds) (k : Nat) :
    ∃ ts, Spells false (w ++ List.replicate k ' ' ++ "end".toList) ts ∧ Carries target plain ts ds := by
  obtain ⟨ts, hw, hts⟩ := h
  have hend : Spells false "end".toList [.keyword .endWord] := spells_of_run rfl rfl
  have hspells := (hw.append (fixed_spaces k)).spells hend
  rw [List.append_nil] at hspells
  refine ⟨_, hspells, List.forall_mem_append.2 ⟨hts.within, List.forall_mem_singleton.2 rfl⟩,
    fun hplain us => ?_⟩
  rw [List.append_assoc, hts.declared hplain _ rfl]
  rfl

/-! ## Local declarations -/

section Declared

variable {g : Setting} {name : String} {constant : Bool}

/-- The tokens of the attribute of a constant. -/
def attributeTokens (target : Target) (constant : Bool) : List Token :=
  if constant && target.hasConstants then [.mark .less, .name "const", .mark .greater] else []

theorem fixed_declaration (h : isIdentifier name = true) {v : List Char} {vs : List Token}
    (hv : Fixed v vs) (hapart : isApart false v = true) (hattribute : Fixed (" <const>".toList ++ v)
      ([.mark .less, .name "const", .mark .greater] ++ vs)) :
    Fixed (localText g name constant ++ v)
      (.keyword .localWord :: .ofWord name :: attributeTokens g.config.target constant ++ vs) := by
  have hlocal : Fixed "local ".toList [.keyword .localWord] := fixed_of_run rfl rfl
  have hname := hlocal.spells (spells_identifier h)
  unfold localText attributeTokens
  split
  · exact (hname.fixed hattribute rfl).congr (by simp) (by simp)
  · rw [List.append_nil]
    exact (hname.fixed hv hapart).congr rfl (by simp)

theorem carries_attribute (target : Target) (constant : Bool) :
    (∀ t ∈ attributeTokens target constant, t.isWithin target = true) ∧
      .keyword .localWord ∉ attributeTokens target constant := by
  cases target <;> cases constant <;> decide

theorem opensAttribute_attributeTokens (us : List Token) (h : opensAttribute us = false) :
    opensAttribute (attributeTokens target constant ++ us) = (constant && target.hasConstants) := by
  rw [attributeTokens]
  split
  · rename_i hconstant
    rw [hconstant]
    rfl
  · rename_i hconstant
    rw [Bool.not_eq_true] at hconstant
    rw [hconstant]
    exact h

theorem isWithin_ofWord (name : String) : (Token.ofWord name).isWithin target = true := by
  rw [Token.ofWord]
  cases Keyword.ofText? name <;> rfl

/-- The declaration of a local with a value. -/
theorem code_local (h : IsMember plain name) (hv : Phrase g.config.target plain v ds) :
    Code g.config.target plain (localText g name constant ++ " = ".toList ++ v)
      ((name, constant) :: ds) := by
  have hequals : Fixed " = ".toList [.mark .assign] := fixed_of_run rfl rfl
  obtain ⟨hwithin, hlocal⟩ := carries_attribute g.config.target constant
  have hpiece : Piece g.config.target plain (localText g name constant ++ " = ".toList)
      [(name, constant)] := by
    refine ⟨_, fixed_declaration h.1 hequals rfl (fixed_of_run rfl rfl), ?_, fun hplain us => ?_⟩
    · simp only [List.cons_append, List.forall_mem_cons, List.forall_mem_append]
      exact ⟨rfl, isWithin_ofWord name, hwithin, isWithin_of_isCommon rfl, List.forall_mem_nil _⟩
    · have hdeclared := declaredLocals_local (h.2 hplain) hlocal (.mark .assign :: us)
      rw [opensAttribute_attributeTokens _ rfl] at hdeclared
      simpa [marked, declaredLocals] using hdeclared
  exact hpiece.append_code hv.code

/-- The declaration of a local without a value. -/
theorem rows_local (h : IsMember plain name) (k : Nat) :
    Rows g.config.target plain (List.replicate k ' ' ++ localText g name constant ++ ['\n'])
      [(name, constant)] := by
  obtain ⟨hwithin, hlocal⟩ := carries_attribute g.config.target constant
  have hlocalText : Fixed (localText g name constant ++ ['\n'])
      (.keyword .localWord :: .ofWord name :: attributeTokens g.config.target constant ++ []) :=
    fixed_declaration h.1 fixed_newline rfl (fixed_of_run rfl rfl)
  have hline := (fixed_spaces k).append hlocalText
  rw [List.nil_append, List.append_nil, ← List.append_assoc] at hline
  refine ⟨_, hline, ?_, fun _ _ => rfl, fun hplain us hus => ?_⟩
  · simp only [List.forall_mem_cons]
    exact ⟨rfl, isWithin_ofWord name, hwithin⟩
  · have hdeclared := declaredLocals_local (h.2 hplain) hlocal us
    rw [opensAttribute_attributeTokens _ hus] at hdeclared
    simpa [marked] using hdeclared

end Declared

/-- The line that loads the `bit` library. -/
theorem rows_bitPrelude : Rows target plain bitPrelude.toList [("bit", false)] := by
  have hfixed : Fixed bitPrelude.toList
      [.keyword .localWord, .name "bit", .mark .assign, .name "require", .mark .leftParen,
        .string [98, 105, 116], .mark .rightParen] := fixed_of_run (by decide) rfl
  exact ⟨_, hfixed, by cases target <;> decide, fun _ _ => rfl, fun _ _ _ => rfl⟩

end Forms

end CodeTree.Lua
