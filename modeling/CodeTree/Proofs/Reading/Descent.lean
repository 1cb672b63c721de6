import CodeTree.Proofs.Reading.Derivation

/-! # What reading takes and finds

Reading takes tokens from the front, one after another, and an invalid token is taken by no production.
An expression that is read binds at both ends as the operators around it ask: an operator takes it as its
left operand if it binds less tightly than the right end of it, and as its right operand if it binds less
tightly than the left end.

* `Takes`: tokens without an invalid one are taken from the front.
* `Derives.takes`: every production takes tokens from the front.
* `Exp.Bound`: the operands of an expression bind as tightly as its operator asks.
* `Derives.binds`: what the productions of expressions find. -/

namespace CodeTree.Lua

open List

set_option autoImplicit false

variable {t : Token} {ts us vs : List Token}

/-! ## Taking tokens -/

def Token.isInvalid : Token → Bool
  | invalid => true
  | _ => false

/-- Some tokens without an invalid one stand before the rest. -/
def Takes (ts rest : List Token) : Prop := ∃ us, ts = us ++ rest ∧ .invalid ∉ us

theorem Takes.refl (ts : List Token) : Takes ts ts := ⟨[], rfl, List.not_mem_nil⟩

theorem Takes.cons (ht : t.isInvalid = false) (h : Takes ts us) : Takes (t :: ts) us := by
  obtain ⟨ws, rfl, hws⟩ := h
  refine ⟨t :: ws, rfl, fun hmem => ?_⟩
  rcases List.mem_cons.1 hmem with rfl | hmem
  · cases ht
  · exact hws hmem

theorem Takes.trans (h : Takes ts us) (h' : Takes us vs) : Takes ts vs := by
  obtain ⟨ws, rfl, hws⟩ := h
  obtain ⟨ws', rfl, hws'⟩ := h'
  exact ⟨ws ++ ws', (List.append_assoc _ _ _).symm, by simp [hws, hws']⟩

theorem Takes.eq_nil (h : Takes [] us) : us = [] := by
  obtain ⟨ws, hws, -⟩ := h
  exact (List.append_eq_nil_iff.1 hws.symm).2

/-- A token that is left over is taken as well. -/
theorem Takes.close (ht : t.isInvalid = false) (h : Takes ts (t :: us)) : Takes ts us :=
  h.trans ((Takes.refl us).cons ht)

theorem takes_of_parseNames (isFirst : Bool) (ts : List Token) :
    ∀ r, parseNames isFirst ts = some r → Takes ts r.2 := by
  fun_induction parseNames isFirst ts with
  | case1 | case3 =>
    rintro _ ⟨⟩
    exact (Takes.refl _).cons rfl
  | case2 n rest ih =>
    rintro _ hr
    obtain ⟨r, hnames, rfl⟩ := Option.map_eq_some_iff.1 hr
    exact (ih r hnames).cons rfl
  | case4 n rest ih =>
    rintro _ hr
    obtain ⟨r, hnames, rfl⟩ := Option.map_eq_some_iff.1 hr
    exact ((ih r hnames).cons rfl).cons rfl
  | case5 => exact nofun

theorem takes_of_parseAttribute {attrib : Option String} (h : parseAttribute ts = (attrib, us)) :
    Takes ts us := by
  unfold parseAttribute at h
  split at h
  · cases h
    exact (((Takes.refl us).cons rfl).cons rfl).cons rfl
  · cases h
    exact .refl _

theorem takes_skipSemicolon (ts : List Token) : Takes ts (skipSemicolon ts) := by
  unfold skipSemicolon
  split
  · exact (Takes.refl _).cons rfl
  · exact .refl _

theorem UnaryOp.isInvalid_eq_false {op : UnaryOp} (h : UnaryOp.ofToken? t = some op) :
    t.isInvalid = false := by
  cases t <;> first | rfl | cases h

theorem BinaryOp.isInvalid_eq_false {op : BinaryOp} (h : BinaryOp.ofToken? t = some op) :
    t.isInvalid = false := by
  cases t <;> first | rfl | cases h

theorem isInvalid_of_atom? {x : Exp String} (h : atom? t = some x) : t.isInvalid = false := by
  cases t <;> first | rfl | cases h

/-- Every production takes its tokens from the front, and no invalid one. -/
theorem Derives.takes {p : Production} {r : p.Result} (h : Derives p ts r us) : Takes ts us := by
  induction h with
  | noBinary | noSuffix | noMore | blockEnd | noResults => exact .refl _
  | simple _ ih | primary _ ih | item _ ih | callStatement _ _ _ ih => exact ih
  | exp _ _ ih ih' | block _ _ ih ih' | results _ _ ih ih' => exact ih.trans ih'
  | unary hop _ ih => exact ih.cons (UnaryOp.isInvalid_eq_false hop)
  | binary hop _ _ _ ih ih' => exact (ih.trans ih').cons (BinaryOp.isInvalid_eq_false hop)
  | atom ht => exact (Takes.refl _).cons (isInvalid_of_atom? ht)
  | noArguments | noFields | empty => exact (Takes.refl _).cons rfl
  | table _ ih | name _ ih | callString _ ih => exact ih.cons rfl
  | member _ ih => exact (ih.cons rfl).cons rfl
  | function hparameters _ ih =>
    exact (((takes_of_parseNames true _ _ hparameters).trans (ih.close rfl)).cons rfl).cons rfl
  | paren _ _ ih ih' | index _ _ ih ih' => exact ((ih.close rfl).trans ih').cons rfl
  | invoke _ _ ih ih' => exact (((ih.trans ih').cons rfl).cons rfl).cons rfl
  | call _ _ ih ih' | callTable _ _ ih ih' | more _ _ ih ih' => exact (ih.trans ih').cons rfl
  | arguments _ _ ih ih' => exact (ih.trans ih').close rfl
  | fields ht _ _ ih ih' => exact (ih.close (by rcases ht with rfl | rfl <;> rfl)).trans ih'
  | lastField _ ih => exact ih.close rfl
  | keyed _ _ ih ih' => exact (((ih.close rfl).close rfl).trans ih').cons rfl
  | result _ _ ih => exact (ih.trans (takes_skipSemicolon _)).cons rfl
  | nested _ ih => exact (ih.close rfl).cons rfl
  | conditional _ _ ih ih' => exact ((ih.close rfl).trans (ih'.close rfl)).cons rfl
  | alternative _ _ _ ih ih' ih'' =>
    exact (((ih.close rfl).trans (ih'.close rfl)).trans (ih''.close rfl)).cons rfl
  | declare hattrib => exact ((takes_of_parseAttribute hattrib).cons rfl).cons rfl
  | declareValues hattrib _ _ ih ih' =>
    exact ((((takes_of_parseAttribute hattrib).close rfl).trans (ih.trans ih')).cons rfl).cons rfl
  | assign _ _ _ ih ih' => exact (ih.close rfl).trans ih'

/-! ## Priorities -/

theorem below_unlimited (ts : List Token) : Below unlimited ts := fun _ _ op _ => op.left_le

theorem below_min {a b : Nat} (ha : Below a ts) (hb : Below b ts) : Below (min a b) ts :=
  fun t ht op hop => Nat.le_min.2 ⟨ha t ht op hop, hb t ht op hop⟩

theorem Below.of_min {a b : Nat} (h : Below (min a b) ts) : Below a ts ∧ Below b ts :=
  ⟨fun t ht op hop => (h t ht op hop).trans (Nat.min_le_left a b),
    fun t ht op hop => (h t ht op hop).trans (Nat.min_le_right a b)⟩

namespace Exp

variable {ν : Type}

def isBinary : Exp ν → Bool
  | binary _ _ _ => true
  | _ => false

def isAccess : Exp ν → Bool
  | field _ _ | index _ _ | call _ _ | invoke _ _ _ => true
  | _ => false

/-- Whether an expression has no operator at its top. -/
def isSimple : Exp ν → Bool
  | unary _ _ | binary _ _ _ => false
  | _ => true

/-- The operands of the operation at the top, or in the parentheses there, bind as tightly as its operator
asks. -/
def Bound : Exp ν → Prop
  | binary op x y => op.left ≤ x.tail ∧ op.right < y.strength
  | unary _ x => UnaryOp.priority < x.strength
  | paren x => x.Bound
  | _ => True

/-- An operation of one operand begins with its operator, and parentheses with the one that opens. -/
def OpensWith : Exp ν → List Token → Prop
  | unary op _, ts => ∃ t rest, ts = t :: rest ∧ UnaryOp.ofToken? t = some op
  | paren x, ts => ∃ rest, ts = .mark .leftParen :: rest ∧ x.OpensWith rest
  | _, _ => True

variable {x : Exp ν}

theorem strength_of_isSimple (h : x.isSimple = true) : x.strength = unlimited := by
  cases x <;> first | rfl | cases h

theorem tail_of_isSimple (h : x.isSimple = true) : x.tail = unlimited := by
  cases x <;> first | rfl | cases h

theorem isSimple_of_isAccess (h : x.isAccess = true) : x.isSimple = true := by
  cases x <;> first | rfl | cases h

theorem bound_of_isAccess (h : x.isAccess = true) : x.Bound := by
  cases x <;> trivial

theorem opensWith_of_isAccess (h : x.isAccess = true) (ts : List Token) : x.OpensWith ts := by
  cases x <;> trivial

theorem opensWith_of_isBinary (h : x.isBinary = true) (ts : List Token) : x.OpensWith ts := by
  cases x <;> trivial

end Exp

/-- An expression without an operator at its top that begins with some tokens. -/
structure ReadSimple (x : Exp String) (ts : List Token) : Prop where
  simple : x.isSimple = true
  bound : x.Bound
  opens : x.OpensWith ts

theorem readSimple_of_atom? {x : Exp String} (h : atom? t = some x) : ReadSimple x (t :: ts) := by
  unfold atom? at h
  split at h <;> cases h <;> exact ⟨rfl, trivial, trivial⟩

theorem ReadSimple.access {x y : Exp String} (h : ReadSimple x ts) (hkept : y = x ∨ y.isAccess = true) :
    ReadSimple y ts := by
  rcases hkept with rfl | haccess
  · exact h
  · exact ⟨Exp.isSimple_of_isAccess haccess, Exp.bound_of_isAccess haccess,
      Exp.opensWith_of_isAccess haccess ts⟩

/-- An expression that was read up to operators that do not bind tighter than `limit`. -/
structure ReadUpTo (limit : Nat) (x : Exp String) (rest : List Token) : Prop where
  strength : limit < x.strength
  below : Below limit rest
  tail : Below x.tail rest
  bound : x.Bound

theorem ReadUpTo.binary {limit : Nat} {op : BinaryOp} {x y : Exp String} {rest : List Token}
    (hlimit : limit < x.strength) (hx : op.left ≤ x.tail) (hop : limit < op.left)
    (hy : ReadUpTo op.right y rest) :
    limit < (Exp.binary op x y).strength ∧ Below (Exp.binary op x y).tail rest ∧
      (Exp.binary op x y).Bound :=
  ⟨Nat.lt_min.2 ⟨hop, hlimit⟩, below_min hy.below hy.tail, hx, hy.strength⟩

/-- What the productions of expressions find. The other productions do not matter for the priorities. -/
def Production.Binds : (p : Production) → List Token → p.Result → List Token → Prop
  | exp limit, ts, x, rest => limit < unlimited → ReadUpTo limit x rest ∧ x.OpensWith ts
  | operand, ts, x, rest => x.strength = unlimited ∧ Below x.tail rest ∧ x.Bound ∧ x.OpensWith ts
  | tail limit x, ts, y, rest => (y = x ∨ y.isBinary = true) ∧ y.strength ≤ x.strength ∧
      (limit < x.strength → Below x.tail ts → x.Bound → ReadUpTo limit y rest)
  | simple, ts, x, _ | primary, ts, x, _ => ReadSimple x ts
  | suffixes x, _, y, _ => y = x ∨ y.isAccess = true
  | _, _, _, _ => True

theorem Derives.binds {p : Production} {r : p.Result} (h : Derives p ts r us) : p.Binds ts r us := by
  induction h with
  | exp _ _ ihx ihy =>
    obtain ⟨hstrength, hbelow, hbound, hopens⟩ := ihx
    obtain ⟨hkept, -, hread⟩ := ihy
    refine fun hlimit => ⟨hread (by rwa [hstrength]) hbelow hbound, ?_⟩
    rcases hkept with hkept | hbinary
    · exact hkept ▸ hopens
    · exact Exp.opensWith_of_isBinary hbinary _
  | unary hop _ ihx =>
    obtain ⟨hread, -⟩ := ihx (by decide)
    exact ⟨rfl, below_min hread.below hread.tail, hread.strength, _, _, rfl, hop⟩
  | simple _ ihx =>
    refine ⟨Exp.strength_of_isSimple ihx.simple, ?_, ihx.bound, ihx.opens⟩
    rw [Exp.tail_of_isSimple ihx.simple]
    exact below_unlimited _
  | @binary limit t op ts us vs x y z hop hlimit _ _ ihy ihz =>
    obtain ⟨hready, -⟩ := ihy op.right_lt
    obtain ⟨hkept, hstrength, hread⟩ := ihz
    refine ⟨.inr ?_, hstrength.trans (Nat.min_le_right _ _), fun hx hbelow hbound => ?_⟩
    · rcases hkept with hkept | hbinary
      · exact hkept ▸ rfl
      · exact hbinary
    · obtain ⟨hstrength, htail, hbound⟩ := ReadUpTo.binary hx (hbelow t rfl op hop) hlimit hready
      exact hread hstrength htail hbound
  | noBinary hts => exact ⟨.inl rfl, le_rfl, fun hx htail hbound => ⟨hx, hts, htail, hbound⟩⟩
  | atom ht => exact readSimple_of_atom? ht
  | table | function => exact ⟨rfl, trivial, trivial⟩
  | primary _ ihx => exact ihx
  | @name n ts _ _ _ ihx =>
    have hname : ReadSimple (.name n) (.name n :: ts) := ⟨rfl, trivial, trivial⟩
    exact hname.access ihx
  | @paren ts _ _ x _ _ _ ihx ihy =>
    obtain ⟨hread, hopens⟩ := ihx (by decide)
    have hparen : ReadSimple (.paren x) (.mark .leftParen :: ts) := ⟨rfl, hread.bound, ts, rfl, hopens⟩
    exact hparen.access ihy
  | member _ ih | index _ _ _ ih | invoke _ _ _ ih | call _ _ _ ih | callString _ ih | callTable _ _ _ ih =>
    rcases ih with rfl | haccess
    · exact .inr rfl
    · exact .inr haccess
  | noSuffix => exact .inl rfl
  | _ => trivial

end CodeTree.Lua
