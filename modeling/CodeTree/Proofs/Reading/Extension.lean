import CodeTree.Proofs.Reading.Descent
import Mathlib.Data.List.Basic

/-! # Reading before further tokens

Behind a whole expression a closing parenthesis or an operator can stand, and reading it goes on there. All
but the last productions do not look beyond the tokens they take, so they find the same before more tokens.
An expression at the end is different: an operator behind it can take its last operand. It does not if it
binds less tightly than the right end of the expression.

* `Halts`: a closing parenthesis or an operator stands first.
* `Production.Stops`: what is found is found before more tokens as well.
* `Derives.append`: derivations before more tokens.
* `parseExp_append`: an expression that was read to the end, before more tokens and at another limit. -/

namespace CodeTree.Lua

open List

set_option autoImplicit false

variable {p : Production} {t : Token} {ts us vs s : List Token} {x y : Exp String}

/-- Whether a token is a closing parenthesis or an operator between operands. -/
def isHalt (t : Token) : Bool := t = .mark .rightParen || (BinaryOp.ofToken? t).isSome

/-- No tokens at all, or a closing parenthesis or an operator stands first. -/
def Halts (s : List Token) : Prop := ∀ t ∈ s.head?, isHalt t = true

/-- Tokens that are no halts stand before more tokens only if they stood there already. -/
theorem Halts.exists_of_append_eq (hs : Halts s) (ps : List Token) {rest : List Token}
    (hps : ∀ t ∈ ps, isHalt t = false) (h : ts ++ s = ps ++ rest) :
    ∃ us, ts = ps ++ us ∧ rest = us ++ s := by
  rcases List.append_eq_append_iff.1 h with ⟨vs, hts, hs'⟩ | ⟨us, hts, hrest⟩
  · cases vs with
    | nil => exact ⟨[], by simpa using hts.symm, by simpa using hs'.symm⟩
    | cons v vs =>
      have hstop : isHalt v = true := hs v (by rw [hs']; rfl)
      have hgo : isHalt v = false := hps v (by rw [hts]; simp)
      rw [hgo] at hstop
      cases hstop
  · exact ⟨us, hts, hrest⟩

/-- Accesses and calls that begin before tokens that halt have all of their first tokens there. -/
theorem opensSuffix_append (hs : Halts s) (h : opensSuffix ts = false) : opensSuffix (ts ++ s) = false := by
  have hfirst : ∀ ps rest, (∀ t ∈ ps, isHalt t = false) → (∀ us, opensSuffix (ps ++ us) = true) →
      ts ++ s ≠ ps ++ rest := by
    intro ps rest hps hopens heq
    obtain ⟨us, rfl, -⟩ := hs.exists_of_append_eq ps hps heq
    rw [hopens us] at h
    cases h
  generalize hts : ts ++ s = vs at hfirst
  unfold opensSuffix
  split
  · exact absurd rfl (hfirst [.mark .dot, .name _] _ (by simp [isHalt, BinaryOp.ofToken?]) fun _ => rfl)
  · exact absurd rfl (hfirst [.mark .leftBracket] _ (by simp [isHalt, BinaryOp.ofToken?]) fun _ => rfl)
  · exact absurd rfl (hfirst [.mark .colon, .name _, .mark .leftParen] _
      (by simp [isHalt, BinaryOp.ofToken?]) fun _ => rfl)
  · exact absurd rfl (hfirst [.mark .leftParen] _ (by simp [isHalt, BinaryOp.ofToken?]) fun _ => rfl)
  · exact absurd rfl (hfirst [.string _] _ (by simp [isHalt, BinaryOp.ofToken?]) fun _ => rfl)
  · exact absurd rfl (hfirst [.mark .leftBrace] _ (by simp [isHalt, BinaryOp.ofToken?]) fun _ => rfl)
  · rfl

/-! ## Tokens that stay in front -/

theorem Takes.ne_nil (h : Takes us vs) (hvs : vs ≠ []) : us ≠ [] := by
  rintro rfl
  exact hvs h.eq_nil

theorem Below.append {limit : Nat} (h : Below limit ts) (hs : ts = [] → Below limit s) :
    Below limit (ts ++ s) := by
  cases ts with
  | nil => exact hs rfl
  | cons t ts => exact h

theorem isBlockEnd_append (h : isBlockEnd ts = true) (hts : ts ≠ []) : isBlockEnd (ts ++ s) = true := by
  cases ts with
  | nil => exact absurd rfl hts
  | cons t ts => exact h

theorem skipSemicolon_append (hts : ts ≠ []) : skipSemicolon (ts ++ s) = skipSemicolon ts ++ s := by
  cases ts with
  | nil => exact absurd rfl hts
  | cons t ts =>
    rw [List.cons_append]
    by_cases ht : t = .mark .semicolon
    · rw [ht]
      rfl
    · have hkept : ∀ us, skipSemicolon (t :: us) = t :: us := by
        intro us
        unfold skipSemicolon
        split
        · exact absurd (List.cons.inj ‹_›).1 ht
        · rfl
      rw [hkept, hkept, List.cons_append]

theorem parseNames_append (isFirst : Bool) (ts s : List Token) : ∀ r, parseNames isFirst ts = some r →
    parseNames isFirst (ts ++ s) = some (r.1, r.2 ++ s) := by
  fun_induction parseNames isFirst ts with
  | case1 | case3 =>
    rintro _ ⟨⟩
    rfl
  | case2 n rest ih | case4 n rest ih =>
    rintro _ hr
    obtain ⟨r, hnames, rfl⟩ := Option.map_eq_some_iff.1 hr
    simp only [List.cons_append, parseNames, ih r hnames, Option.map_some]
  | case5 => rintro _ ⟨⟩

/-- An attribute is read before more tokens if something that begins no attribute stands in between. -/
theorem parseAttribute_append {attrib : Option String} (h : parseAttribute ts = (attrib, us)) (hus : us ≠ [])
    (hless : us.head? ≠ some (.mark .less)) : parseAttribute (ts ++ s) = (attrib, us ++ s) := by
  unfold parseAttribute at h
  split at h
  · cases h
    rfl
  · cases h
    unfold parseAttribute
    split
    · rename_i heq
      have hhead := congrArg List.head? heq
      rw [List.head?_append_of_ne_nil _ hus] at hhead
      exact absurd hhead hless
    · rfl

/-! ## Derivations before more tokens -/

/-- What is found is found as well before tokens that halt. An expression at the end has to keep them out,
and lists and statements are only asked for where they are not at the end. -/
def Production.Stops : (p : Production) → p.Result → (rest s : List Token) → Prop
  | exp limit, x, rest, s | tail limit _, x, rest, s => rest = [] → Below limit s ∧ Below x.tail s
  | operand, x, rest, s => rest = [] → Below x.tail s
  | simple, _, _, _ | primary, _, _, _ | suffixes _, _, _, _ | fields, _, _, _ | arguments, _, _, _ => True
  | field, _, rest, _ | more, _, rest, _ | block, _, rest, _ | results, _, rest, _ => rest ≠ []
  | statement, _, rest, _ => rest ≠ [] ∧ rest.head? ≠ some (.mark .less)

/-- Without tokens there are no operators. -/
theorem Derives.eq_of_tail {limit : Nat} (h : Derives (.tail limit x) ts y us) (hts : ts = []) :
    y = x ∧ us = [] := by
  cases h with
  | binary => cases hts
  | noBinary => exact ⟨rfl, hts⟩

theorem Derives.head?_of_block {body : List (Stat String)} (h : Derives .block ts body us) :
    ts.head? ≠ some (.mark .less) := by
  intro hless
  obtain ⟨ts, rfl⟩ := List.head?_eq_some_iff.1 hless
  cases h with
  | blockEnd hts => cases hts
  | block hs =>
    obtain ⟨t, vs, heq, ht⟩ := hs.exists_cons rfl
    obtain ⟨rfl, -⟩ := List.cons.inj heq
    rcases ht with h | h | h | h | h | ⟨n, h⟩ <;> cases h

/-- What is derived is derived before tokens that halt as well. -/
theorem Derives.append {r : p.Result} (h : Derives p ts r us) (hs : Halts s) (hstop : p.Stops r us s) :
    Derives p (ts ++ s) r (us ++ s) := by
  induction h with
  | exp _ hy ihx ihy =>
    refine .exp (ihx fun hus => ?_) (ihy hstop)
    obtain ⟨hkept, hvs⟩ := hy.eq_of_tail hus
    exact hkept ▸ (hstop hvs).2
  | unary hop _ ihx => exact .unary hop (ihx fun hus => (hstop hus).of_min)
  | simple _ ihx => exact .simple (ihx trivial)
  | binary hop hlimit _ hz ihy ihz =>
    refine .binary hop hlimit (ihy fun hus => ?_) (ihz hstop)
    obtain ⟨hkept, hvs⟩ := hz.eq_of_tail hus
    exact (hkept ▸ (hstop hvs).2).of_min
  | noBinary hts => exact .noBinary (hts.append fun h => (hstop h).1)
  | atom ht => exact .atom ht
  | table _ ihfs => exact .table (ihfs trivial)
  | function hparameters _ ihbody =>
    exact .function (parseNames_append true _ s _ hparameters) (ihbody (List.cons_ne_nil _ _))
  | primary _ ihx => exact .primary (ihx trivial)
  | name _ ihx => exact .name (ihx trivial)
  | paren _ _ ihx ihy => exact .paren (ihx nofun) (ihy trivial)
  | member _ ihy => exact .member (ihy trivial)
  | index _ _ ihkey ihy => exact .index (ihkey nofun) (ihy trivial)
  | invoke _ _ ihxs ihy => exact .invoke (ihxs trivial) (ihy trivial)
  | call _ _ ihxs ihy => exact .call (ihxs trivial) (ihy trivial)
  | callString _ ihy => exact .callString (ihy trivial)
  | callTable _ _ ihfs ihy => exact .callTable (ihfs trivial) (ihy trivial)
  | noSuffix hts => exact .noSuffix (opensSuffix_append hs hts)
  | noArguments => exact .noArguments
  | arguments _ hxs ihx ihxs =>
    have hus := hxs.takes.ne_nil (List.cons_ne_nil _ _)
    exact .arguments (ihx fun h => absurd h hus) (ihxs (List.cons_ne_nil _ _))
  | more _ hxs ihx ihxs => exact .more (ihx fun h => absurd h (hxs.takes.ne_nil hstop)) (ihxs hstop)
  | noMore hts => exact .noMore (by rwa [List.head?_append_of_ne_nil _ hstop])
  | noFields => exact .noFields
  | fields ht _ _ ihf ihfs => exact .fields ht (ihf (List.cons_ne_nil _ _)) (ihfs trivial)
  | lastField _ ihf => exact .lastField (ihf (List.cons_ne_nil _ _))
  | keyed _ _ ihkey ihvalue => exact .keyed (ihkey nofun) (ihvalue fun h => absurd h hstop)
  | item _ ihvalue => exact .item (ihvalue fun h => absurd h hstop)
  | blockEnd hts => exact .blockEnd (isBlockEnd_append hts hstop)
  | result hvalues hend ihvalues =>
    have hus := (takes_skipSemicolon _).ne_nil hstop
    rw [← skipSemicolon_append hus]
    refine .result (ihvalues hus) ?_
    rw [skipSemicolon_append hus]
    exact isBlockEnd_append hend hstop
  | block _ hstatements ihs ihstatements =>
    exact .block (ihs ⟨hstatements.takes.ne_nil hstop, hstatements.head?_of_block⟩) (ihstatements hstop)
  | noResults hts =>
    refine .noResults (hts.imp (fun h => isBlockEnd_append h hstop) fun h => ?_)
    rwa [List.head?_append_of_ne_nil _ hstop]
  | results _ hxs ihx ihxs => exact .results (ihx fun h => absurd h (hxs.takes.ne_nil hstop)) (ihxs hstop)
  | empty => exact .empty
  | nested _ ihbody => exact .nested (ihbody (List.cons_ne_nil _ _))
  | conditional _ _ ihcondition ihconsequence =>
    exact .conditional (ihcondition nofun) (ihconsequence (List.cons_ne_nil _ _))
  | alternative _ _ _ ihcondition ihconsequence ihalternative =>
    exact .alternative (ihcondition nofun) (ihconsequence (List.cons_ne_nil _ _))
      (ihalternative (List.cons_ne_nil _ _))
  | declare hattrib hus =>
    refine .declare (parseAttribute_append hattrib hstop.1 hstop.2) ?_
    rwa [List.head?_append_of_ne_nil _ hstop.1]
  | declareValues hattrib _ hxs ihx ihxs =>
    exact .declareValues (parseAttribute_append hattrib (List.cons_ne_nil _ _) (by simp))
      (ihx fun h => absurd h (hxs.takes.ne_nil hstop.1)) (ihxs hstop.1)
  | assign _ hvariable _ ihtarget ihvalue =>
    exact .assign (ihtarget trivial) hvariable (ihvalue fun h => absurd h hstop.1)
  | callStatement _ hus hcall ihx =>
    refine .callStatement (ihx trivial) ?_ hcall
    rwa [List.head?_append_of_ne_nil _ hstop.1]

/-- Operators at the end, before tokens that the last operand leaves alone: reading goes on with those. -/
def Production.Resumes (s : List Token) : (p : Production) → List Token → p.Result → List Token → Prop
  | tail _ x, ts, y, rest => rest = [] → Below y.tail s → ∀ limit < y.strength, ∀ z us,
      Derives (.tail limit y) s z us → Derives (.tail limit x) (ts ++ s) z us
  | _, _, _, _ => True

theorem Derives.resumes {r : p.Result} (h : Derives p ts r us) (hs : Halts s) : p.Resumes s ts r us := by
  induction h with
  | binary hop _ hy hz _ ihz =>
    intro hnil hbelow limit hlimit z us hnext
    obtain ⟨-, hstrength, -⟩ := hz.binds
    refine .binary hop (Nat.lt_min.1 (hlimit.trans_le hstrength)).1 (hy.append hs fun hus => ?_)
      (ihz hnil hbelow limit hlimit z us hnext)
    exact ((hz.eq_of_tail hus).1 ▸ hbelow).of_min
  | noBinary =>
    rintro rfl _ _ _ _ _ hnext
    exact hnext
  | _ => trivial

/-- An expression that was read to the end is read before an operator that its right end leaves alone, and
reading goes on with that operator. -/
theorem parseExp_append {limit : Nat} (h : parseExp 0 ts = some (x, [])) (hs : Halts s)
    (htail : Below x.tail s) (hlimit : limit < x.strength) (hnext : parseTail limit x s = some (y, us)) :
    parseExp limit (ts ++ s) = some (y, us) := by
  cases derived_parse (.exp 0) ts _ h with
  | exp hx hy =>
    refine (Derives.exp (hx.append hs fun hus => ?_)
      (hy.resumes hs rfl htail limit hlimit y us (derived_parse (.tail limit x) s _ hnext))).parse_eq
    exact (hy.eq_of_tail hus).1 ▸ htail

end CodeTree.Lua
