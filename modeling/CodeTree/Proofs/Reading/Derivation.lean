import CodeTree.Proofs.Reading.WellFormed

/-! # Derivations

The recursive descent as a relation: one constructor for each alternative of the grammar, with the tokens
it takes and what it finds. Where a production goes on as far as it can, the alternative at which it stops
says what is not behind it. A derivation is exactly a successful run, so a property of all that is read is
an induction on derivations, and to read something it is enough to derive it.

* `Production`: the productions of the grammar, and `Production.parse` their descent.
* `Derives`: the alternatives.
* `derives_iff`: what is derived is what is read. -/

namespace CodeTree.Lua

open List

set_option autoImplicit false

/-! ## Alternatives -/

/-- The productions of the grammar. Those that go on behind an expression are given that expression. -/
inductive Production
  | exp (limit : Nat)
  | operand
  | tail (limit : Nat) (x : Exp String)
  | simple
  | primary
  | suffixes (x : Exp String)
  | fields
  | field
  | arguments
  | more
  | block
  | statement
  | results

namespace Production

/-- What a production finds. -/
abbrev Result : Production → Type
  | exp _ | operand | tail _ _ | simple | primary | suffixes _ => Exp String
  | fields => List (TableField String)
  | field => TableField String
  | arguments | more | results => List (Exp String)
  | block => List (Stat String)
  | statement => Stat String

def parse : (p : Production) → List Token → Option (p.Result × List Token)
  | exp limit, ts => ts |>.parseExp limit
  | operand, ts => ts |>.parseOperand
  | tail limit x, ts => ts |>.parseTail limit x
  | simple, t :: ts => ts |>.parseSimple t
  | primary, t :: ts => ts |>.parsePrefix t
  | suffixes x, ts => ts |>.parseSuffixes x
  | fields, ts => ts |>.parseFields
  | field, ts => ts |>.parseField
  | arguments, ts => ts |>.parseArguments
  | more, ts => ts |>.parseMore
  | block, ts => ts |>.parseBlock
  | statement, t :: ts => ts |>.parseStatement t
  | results, ts => ts |>.parseResults
  | simple, [] | primary, [] | statement, [] => none

end Production

/-- The tokens do not begin with an operator that binds tighter than `limit`. -/
def Below (limit : Nat) (ts : List Token) : Prop :=
  ∀ t ∈ ts.head?, ∀ op ∈ BinaryOp.ofToken? t, op.left ≤ limit

/-- The expression that a token is by itself. -/
def atom? : Token → Option (Exp String)
  | .keyword .nilWord => some .nil
  | .keyword .trueWord => some (.boolean true)
  | .keyword .falseWord => some (.boolean false)
  | .numeral text => some (.numeral text)
  | .string value => some (.string value)
  | _ => none

/-- Whether the tokens begin with an access or a call. -/
def opensSuffix : List Token → Bool
  | .mark .dot :: .name _ :: _ | .mark .leftBracket :: _
  | .mark .colon :: .name _ :: .mark .leftParen :: _ | .mark .leftParen :: _ | .string _ :: _
  | .mark .leftBrace :: _ => true
  | _ => false

/-- The production takes tokens from the front, finds something and leaves the rest. -/
inductive Derives : (p : Production) → List Token → p.Result → List Token → Prop
  | exp {limit ts us vs x y} (hx : Derives .operand ts x us) (hy : Derives (.tail limit x) us y vs) :
    Derives (.exp limit) ts y vs
  | unary {t op ts us x} (hop : UnaryOp.ofToken? t = some op) (hx : Derives (.exp UnaryOp.priority) ts x us) :
    Derives .operand (t :: ts) (.unary op x) us
  | simple {ts us x} (hx : Derives .simple ts x us) : Derives .operand ts x us
  | binary {limit t op ts us vs x y z} (hop : BinaryOp.ofToken? t = some op) (hlimit : limit < op.left)
    (hy : Derives (.exp op.right) ts y us) (hz : Derives (.tail limit (.binary op x y)) us z vs) :
    Derives (.tail limit x) (t :: ts) z vs
  | noBinary {limit ts x} (hts : Below limit ts) : Derives (.tail limit x) ts x ts
  | atom {t ts x} (ht : atom? t = some x) : Derives .simple (t :: ts) x ts
  | table {ts us fs} (hfs : Derives .fields ts fs us) :
    Derives .simple (.mark .leftBrace :: ts) (.table fs) us
  | function {ts us vs parameters body} (hparameters : parseNames true ts = some (parameters, us))
    (hbody : Derives .block us body (.keyword .endWord :: vs)) :
    Derives .simple (.keyword .functionWord :: .mark .leftParen :: ts) (.function parameters body) vs
  | primary {ts us x} (hx : Derives .primary ts x us) : Derives .simple ts x us
  | name {n ts us x} (hx : Derives (.suffixes (.name n)) ts x us) : Derives .primary (.name n :: ts) x us
  | paren {ts us vs x y} (hx : Derives (.exp 0) ts x (.mark .rightParen :: us))
    (hy : Derives (.suffixes (.paren x)) us y vs) : Derives .primary (.mark .leftParen :: ts) y vs
  | member {member ts us x y} (hy : Derives (.suffixes (.field x member)) ts y us) :
    Derives (.suffixes x) (.mark .dot :: .name member :: ts) y us
  | index {ts us vs x key y} (hkey : Derives (.exp 0) ts key (.mark .rightBracket :: us))
    (hy : Derives (.suffixes (.index x key)) us y vs) :
    Derives (.suffixes x) (.mark .leftBracket :: ts) y vs
  | invoke {member ts us vs x xs y} (hxs : Derives .arguments ts xs us)
    (hy : Derives (.suffixes (.invoke x member xs)) us y vs) :
    Derives (.suffixes x) (.mark .colon :: .name member :: .mark .leftParen :: ts) y vs
  | call {ts us vs x xs y} (hxs : Derives .arguments ts xs us) (hy : Derives (.suffixes (.call x xs)) us y vs) :
    Derives (.suffixes x) (.mark .leftParen :: ts) y vs
  | callString {value ts us x y} (hy : Derives (.suffixes (.call x [.string value])) ts y us) :
    Derives (.suffixes x) (.string value :: ts) y us
  | callTable {ts us vs x fs y} (hfs : Derives .fields ts fs us)
    (hy : Derives (.suffixes (.call x [.table fs])) us y vs) :
    Derives (.suffixes x) (.mark .leftBrace :: ts) y vs
  | noSuffix {ts x} (hts : opensSuffix ts = false) : Derives (.suffixes x) ts x ts
  | noArguments {ts} : Derives .arguments (.mark .rightParen :: ts) [] ts
  | arguments {ts us vs x xs} (hx : Derives (.exp 0) ts x us)
    (hxs : Derives .more us xs (.mark .rightParen :: vs)) : Derives .arguments ts (x :: xs) vs
  | more {ts us vs x xs} (hx : Derives (.exp 0) ts x us) (hxs : Derives .more us xs vs) :
    Derives .more (.mark .comma :: ts) (x :: xs) vs
  | noMore {ts} (hts : ∀ t ∈ ts.head?, t ≠ .mark .comma) : Derives .more ts [] ts
  | noFields {ts} : Derives .fields (.mark .rightBrace :: ts) [] ts
  | fields {t ts us vs f fs} (ht : t = .mark .comma ∨ t = .mark .semicolon)
    (hf : Derives .field ts f (t :: us)) (hfs : Derives .fields us fs vs) : Derives .fields ts (f :: fs) vs
  | lastField {ts us f} (hf : Derives .field ts f (.mark .rightBrace :: us)) : Derives .fields ts [f] us
  | keyed {ts us vs key value} (hkey : Derives (.exp 0) ts key (.mark .rightBracket :: .mark .assign :: us))
    (hvalue : Derives (.exp 0) us value vs) :
    Derives .field (.mark .leftBracket :: ts) (.keyed key value) vs
  | item {ts us value} (hvalue : Derives (.exp 0) ts value us) : Derives .field ts (.item value) us
  | blockEnd {ts} (hts : isBlockEnd ts = true) : Derives .block ts [] ts
  | result {ts us values} (hvalues : Derives .results ts values us)
    (hend : isBlockEnd (skipSemicolon us) = true) :
    Derives .block (.keyword .returnWord :: ts) [.result values] (skipSemicolon us)
  | block {ts us vs s statements} (hs : Derives .statement ts s us)
    (hstatements : Derives .block us statements vs) : Derives .block ts (s :: statements) vs
  | noResults {ts} (hts : isBlockEnd ts = true ∨ ts.head? = some (.mark .semicolon)) :
    Derives .results ts [] ts
  | results {ts us vs x xs} (hx : Derives (.exp 0) ts x us) (hxs : Derives .more us xs vs) :
    Derives .results ts (x :: xs) vs
  | empty {ts} : Derives .statement (.mark .semicolon :: ts) .empty ts
  | nested {ts us body} (hbody : Derives .block ts body (.keyword .endWord :: us)) :
    Derives .statement (.keyword .doWord :: ts) (.block body) us
  | conditional {ts us vs condition consequence}
    (hcondition : Derives (.exp 0) ts condition (.keyword .thenWord :: us))
    (hconsequence : Derives .block us consequence (.keyword .endWord :: vs)) :
    Derives .statement (.keyword .ifWord :: ts) (.conditional condition consequence []) vs
  | alternative {ts us vs ws condition consequence alternative}
    (hcondition : Derives (.exp 0) ts condition (.keyword .thenWord :: us))
    (hconsequence : Derives .block us consequence (.keyword .elseWord :: vs))
    (halternative : Derives .block vs alternative (.keyword .endWord :: ws)) :
    Derives .statement (.keyword .ifWord :: ts) (.conditional condition consequence alternative) ws
  | declare {n attrib ts us} (hattrib : parseAttribute ts = (attrib, us))
    (hus : us.head? ≠ some (.mark .assign)) :
    Derives .statement (.keyword .localWord :: .name n :: ts) (.declare n attrib []) us
  | declareValues {n attrib ts us vs ws x xs} (hattrib : parseAttribute ts = (attrib, .mark .assign :: us))
    (hx : Derives (.exp 0) us x vs) (hxs : Derives .more vs xs ws) :
    Derives .statement (.keyword .localWord :: .name n :: ts) (.declare n attrib (x :: xs)) ws
  | assign {ts us vs target value} (htarget : Derives .primary ts target (.mark .assign :: us))
    (hvariable : target.isVariable = true) (hvalue : Derives (.exp 0) us value vs) :
    Derives .statement ts (.assign target value) vs
  | callStatement {ts us x} (hx : Derives .primary ts x us) (hus : us.head? ≠ some (.mark .assign))
    (hcall : x.isCall = true) : Derives .statement ts (.call x) us

variable {p : Production} {ts us : List Token} {x : Exp String} {t : Token}

/-! ## What stands first

An alternative that begins with an expression needs no condition to keep it apart from one that begins with
a mark of its own, since no expression begins with that mark. -/

namespace Production

/-- What the tokens of an expression or a statement begin with. -/
def BeginsWith : Production → Token → Prop
  | exp _, t | operand, t => opensExp t = true
  | simple, t => opensExp t = true ∧ UnaryOp.ofToken? t = none
  | primary, t => t = .mark .leftParen ∨ ∃ n, t = .name n
  | statement, t => t = .mark .semicolon ∨ t = .keyword .doWord ∨ t = .keyword .ifWord ∨
      t = .keyword .localWord ∨ t = .mark .leftParen ∨ ∃ n, t = .name n
  | _, _ => False

/-- The productions that take at least one token. -/
def takesToken : Production → Bool
  | exp _ | operand | simple | primary | statement => true
  | _ => false

end Production

theorem beginsWith_of_atom? (ht : atom? t = some x) : Production.simple.BeginsWith t := by
  unfold atom? at ht
  split at ht
  all_goals first
    | exact ⟨rfl, rfl⟩
    | cases ht

theorem opensExp_of_ofToken? {op : UnaryOp} (hop : UnaryOp.ofToken? t = some op) : opensExp t = true := by
  unfold UnaryOp.ofToken? at hop
  split at hop
  all_goals first
    | rfl
    | cases hop

theorem Derives.exists_cons {r : p.Result} (h : Derives p ts r us) (hp : p.takesToken = true) :
    ∃ t vs, ts = t :: vs ∧ p.BeginsWith t := by
  induction h with
  | exp _ _ ihx => exact ihx rfl
  | unary hop => exact ⟨_, _, rfl, opensExp_of_ofToken? hop⟩
  | simple _ ihx =>
    obtain ⟨t, vs, rfl, ht, -⟩ := ihx rfl
    exact ⟨t, vs, rfl, ht⟩
  | atom ht => exact ⟨_, _, rfl, beginsWith_of_atom? ht⟩
  | table | function => exact ⟨_, _, rfl, rfl, rfl⟩
  | primary _ ihx =>
    obtain ⟨t, vs, rfl, rfl | ⟨n, rfl⟩⟩ := ihx rfl
    · exact ⟨_, _, rfl, rfl, rfl⟩
    · exact ⟨_, _, rfl, rfl, rfl⟩
  | name => exact ⟨_, _, rfl, .inr ⟨_, rfl⟩⟩
  | paren => exact ⟨_, _, rfl, .inl rfl⟩
  | empty => exact ⟨_, _, rfl, .inl rfl⟩
  | nested => exact ⟨_, _, rfl, .inr (.inl rfl)⟩
  | conditional | alternative => exact ⟨_, _, rfl, .inr (.inr (.inl rfl))⟩
  | declare | declareValues => exact ⟨_, _, rfl, .inr (.inr (.inr (.inl rfl)))⟩
  | assign _ _ _ ihx | callStatement _ _ _ ihx =>
    obtain ⟨t, vs, rfl, ht⟩ := ihx rfl
    exact ⟨t, vs, rfl, .inr (.inr (.inr (.inr ht)))⟩
  | _ => cases hp

theorem Derives.ne_of_exp {limit : Nat} (h : Derives (.exp limit) ts x us) (ht : opensExp t = false)
    (vs : List Token) : ts ≠ t :: vs := by
  rintro rfl
  obtain ⟨t', us, heq, ht'⟩ := h.exists_cons rfl
  obtain ⟨rfl, rfl⟩ := List.cons.inj heq
  exact absurd ht' (by simp [Production.BeginsWith, ht])

theorem Derives.ne_of_field {f : TableField String} (h : Derives .field ts f us) (vs : List Token) :
    ts ≠ .mark .rightBrace :: vs := by
  cases h with
  | keyed => exact nofun
  | item hvalue => exact hvalue.ne_of_exp rfl vs

/-! ## What is derived is read -/

theorem expect_eq_some : expect t ts = some us ↔ ts = t :: us := by
  cases ts with
  | nil => simp [expect]
  | cons t' ts =>
    by_cases ht : t' = t <;> simp [expect, ht]

theorem expect_cons : expect t (t :: ts) = some ts := expect_eq_some.2 rfl

theorem parseSimple_of_atom? (ht : atom? t = some x) : parseSimple t ts = some (x, ts) := by
  unfold atom? at ht
  split at ht <;> cases ht <;> rw [List.parseSimple.eq_def]

theorem parseSimple_eq_parsePrefix (ht : Production.primary.BeginsWith t) :
    parseSimple t ts = parsePrefix t ts := by
  rw [List.parseSimple.eq_def]
  rcases ht with rfl | ⟨n, rfl⟩ <;> rfl

theorem parseTail_of_below {limit : Nat} (h : Below limit ts) : parseTail limit x ts = some (x, ts) := by
  rw [List.parseTail.eq_def]
  cases ts with
  | nil => rfl
  | cons t ts =>
    cases hop : BinaryOp.ofToken? t with
    | none => simp only [hop]
    | some op => simp only [hop, if_neg (Nat.not_lt.2 (h t rfl op hop))]

theorem parseSuffixes_of_not (h : opensSuffix ts = false) : parseSuffixes x ts = some (x, ts) := by
  rw [List.parseSuffixes.eq_def]
  split
  all_goals first
    | rfl
    | cases h

theorem parseBlock_of_isBlockEnd (h : isBlockEnd ts = true) : parseBlock ts = some ([], ts) := by
  rw [List.parseBlock.eq_def]
  cases ts with
  | nil => rfl
  | cons t ts => exact if_pos h

theorem goesOn_of_beginsWith (ht : Production.statement.BeginsWith t) :
    endsBlock t = false ∧ t ≠ .keyword .returnWord := by
  rcases ht with rfl | rfl | rfl | rfl | rfl | ⟨n, rfl⟩ <;> exact ⟨rfl, nofun⟩

/-- The first token of a name or of parentheses begins no other statement. -/
theorem parseStatement_of_primary (ht : Production.primary.BeginsWith t) :
    parseStatement t ts = (parsePrefix t ts).bind fun (x, rest) =>
      match rest with
      | .mark .assign :: rest =>
        if x.isVariable then (parseExp 0 rest).bind fun (value, rest) => some (.assign x value, rest)
        else none
      | rest => if x.isCall then some (.call x, rest) else none := by
  rw [List.parseStatement.eq_def]
  rcases ht with rfl | ⟨n, rfl⟩ <;> rfl

theorem parseResults_of_stops (h : isBlockEnd ts = true ∨ ts.head? = some (.mark .semicolon)) :
    parseResults ts = some ([], ts) := by
  rw [List.parseResults.eq_def]
  cases ts with
  | nil => rfl
  | cons t ts =>
    exact if_pos (Bool.or_eq_true_iff.2 (h.imp id fun ht => decide_eq_true (Option.some.inj ht)))

theorem not_stops_of_opensExp (ht : opensExp t = true) :
    ¬ (endsBlock t || decide (t = .mark .semicolon)) = true := by
  have hend : endsBlock t = false := by
    unfold endsBlock
    split
    all_goals first
      | rfl
      | exact nomatch ht
  rw [hend, Bool.false_or, decide_eq_true_iff]
  rintro rfl
  exact nomatch ht

theorem parseMore_of_ne (h : ∀ t ∈ ts.head?, t ≠ .mark .comma) : parseMore ts = some ([], ts) := by
  rw [List.parseMore.eq_def]
  split
  · exact absurd rfl (h _ rfl)
  · rfl

theorem Derives.parse_eq {r : p.Result} (h : Derives p ts r us) : p.parse ts = some (r, us) := by
  induction h
  all_goals simp only [Production.parse] at *
  case exp ihx ihy =>
    rw [parseExp, ihx]
    exact ihy
  case unary hop _ ihx =>
    rw [parseOperand]
    simp only [hop, ihx, Option.bind_eq_bind, Option.bind_some]
  case simple hx ihx =>
    obtain ⟨t, vs, rfl, -, ht⟩ := hx.exists_cons rfl
    rw [parseOperand]
    simp only [ht]
    exact ihx
  case binary hop hlimit _ _ ihy ihz =>
    rw [List.parseTail.eq_def]
    simp only [hop, if_pos hlimit, ihy]
    exact ihz
  case noBinary hts => exact parseTail_of_below hts
  case atom ht => exact parseSimple_of_atom? ht
  case table ihfs =>
    rw [List.parseSimple.eq_def]
    simp only [ihfs, Option.bind_eq_bind, Option.bind_some]
  case function hparameters _ ihbody =>
    rw [List.parseSimple.eq_def]
    simp only [expect_cons, hparameters, ihbody, Option.bind_eq_bind, Option.bind_some]
  case primary hx ihx =>
    obtain ⟨t, vs, rfl, ht⟩ := hx.exists_cons rfl
    exact (parseSimple_eq_parsePrefix ht).trans ihx
  case name ihx =>
    rw [parsePrefix]
    exact ihx
  case paren ihx ihy =>
    rw [parsePrefix]
    simp only [ihx, expect_cons, Option.bind_eq_bind, Option.bind_some]
    exact ihy
  case member ihy =>
    rw [List.parseSuffixes.eq_def]
    exact ihy
  case index ihkey ihy =>
    rw [List.parseSuffixes.eq_def]
    simp only [ihkey, expect_cons, Option.bind_eq_bind, Option.bind_some]
    exact ihy
  case invoke ihxs ihy =>
    rw [List.parseSuffixes.eq_def]
    simp only [ihxs, Option.bind_eq_bind, Option.bind_some]
    exact ihy
  case call ihxs ihy =>
    rw [List.parseSuffixes.eq_def]
    simp only [ihxs, Option.bind_eq_bind, Option.bind_some]
    exact ihy
  case callString ihy =>
    rw [List.parseSuffixes.eq_def]
    exact ihy
  case callTable ihfs ihy =>
    rw [List.parseSuffixes.eq_def]
    simp only [ihfs, Option.bind_eq_bind, Option.bind_some]
    exact ihy
  case noSuffix hts => exact parseSuffixes_of_not hts
  case noArguments => rw [List.parseArguments.eq_def]
  case arguments hx _ ihx ihxs =>
    rw [List.parseArguments.eq_def]
    split
    · exact absurd rfl (hx.ne_of_exp rfl _)
    · simp only [ihx, ihxs, expect_cons, Option.bind_eq_bind, Option.bind_some]
  case more ihx ihxs =>
    rw [List.parseMore.eq_def]
    simp only [ihx, ihxs, Option.bind_eq_bind, Option.bind_some]
  case noMore hts => exact parseMore_of_ne hts
  case noFields => rw [List.parseFields.eq_def]
  case fields ht hf _ ihf ihfs =>
    rw [List.parseFields.eq_def]
    split
    · exact absurd rfl (hf.ne_of_field _)
    · rcases ht with rfl | rfl <;> simp only [ihf, ihfs, Option.bind_eq_bind, Option.bind_some]
  case lastField hf ihf =>
    rw [List.parseFields.eq_def]
    split
    · exact absurd rfl (hf.ne_of_field _)
    · simp only [ihf, Option.bind_eq_bind, Option.bind_some]
  case keyed ihkey ihvalue =>
    rw [List.parseField.eq_def]
    simp only [ihkey, ihvalue, expect_cons, Option.bind_eq_bind, Option.bind_some]
  case item hvalue ihvalue =>
    rw [List.parseField.eq_def]
    split
    · exact absurd rfl (hvalue.ne_of_exp rfl _)
    · simp only [ihvalue, Option.bind_eq_bind, Option.bind_some]
  case blockEnd hts => exact parseBlock_of_isBlockEnd hts
  case result hend ihvalues =>
    rw [List.parseBlock.eq_def]
    simp [endsBlock, ihvalues, hend]
  case block hs _ ihs ihstatements =>
    obtain ⟨t, vs, rfl, ht⟩ := hs.exists_cons rfl
    obtain ⟨hend, hreturn⟩ := goesOn_of_beginsWith ht
    rw [List.parseBlock.eq_def]
    simp only [hend, Bool.false_eq_true, if_false, if_neg hreturn]
    dsimp only at ihs
    simp only [ihs, ihstatements, Option.bind_eq_bind, Option.bind_some]
  case noResults hts => exact parseResults_of_stops hts
  case results hx _ ihx ihxs =>
    obtain ⟨t, vs, rfl, ht⟩ := hx.exists_cons rfl
    rw [List.parseResults.eq_def]
    simp only [if_neg (not_stops_of_opensExp ht), ihx, ihxs, Option.bind_eq_bind, Option.bind_some]
  case empty => rw [List.parseStatement.eq_def]
  case nested ihbody =>
    rw [List.parseStatement.eq_def]
    simp only [ihbody, expect_cons, Option.bind_eq_bind, Option.bind_some]
  case conditional ihcondition ihconsequence =>
    rw [List.parseStatement.eq_def]
    simp only [ihcondition, ihconsequence, expect_cons, Option.bind_eq_bind, Option.bind_some]
  case alternative ihcondition ihconsequence ihalternative =>
    rw [List.parseStatement.eq_def]
    simp only [ihcondition, ihconsequence, ihalternative, expect_cons, Option.bind_eq_bind,
      Option.bind_some]
  case declare hattrib hus =>
    rw [List.parseStatement.eq_def]
    simp only [hattrib]
    split
    · exact absurd rfl hus
    · rfl
  case declareValues hattrib _ _ ihx ihxs =>
    rw [List.parseStatement.eq_def]
    simp only [hattrib, ihx, ihxs, Option.bind_eq_bind, Option.bind_some]
  case assign htarget hvariable _ ihtarget ihvalue =>
    obtain ⟨t, ts, rfl, ht⟩ := htarget.exists_cons rfl
    dsimp only at ihtarget ⊢
    simp only [parseStatement_of_primary ht, ihtarget, Option.bind_some, if_pos hvariable, ihvalue]
  case callStatement hx hus hcall ihx =>
    obtain ⟨t, ts, rfl, ht⟩ := hx.exists_cons rfl
    dsimp only at ihx ⊢
    simp only [parseStatement_of_primary ht, ihx, Option.bind_some]
    split
    · exact absurd rfl hus
    · rw [if_pos hcall]

/-! ## What is read is derived -/

/-- An attempt to read is derived by the production if it succeeds. -/
def Derived (p : Production) (ts : List Token) (o : Option (p.Result × List Token)) : Prop :=
  ∀ r, o = some r → Derives p ts r.1 r.2

theorem derived_none : Derived p ts none := nofun

theorem derived_some {r : p.Result} (h : Derives p ts r us) : Derived p ts (some (r, us)) := by
  rintro _ ⟨⟩
  exact h

theorem Derived.bind (q : Production) {vs : List Token} {o : Option (q.Result × List Token)}
    {next : q.Result × List Token → Option (p.Result × List Token)} (ho : Derived q vs o)
    (hnext : ∀ r us, Derives q vs r us → Derived p ts (next (r, us))) : Derived p ts (o >>= next) := by
  intro r hr
  obtain ⟨⟨r', us⟩, hr', hr⟩ := Option.bind_eq_some_iff.1 hr
  exact hnext r' us (ho _ hr') r hr

theorem derived_expect {vs : List Token} {next : List Token → Option (p.Result × List Token)}
    (hnext : ∀ us, vs = t :: us → Derived p ts (next us)) : Derived p ts (expect t vs >>= next) := by
  intro r hr
  obtain ⟨us, hus, hr⟩ := Option.bind_eq_some_iff.1 hr
  exact hnext us (expect_eq_some.1 hus) r hr

theorem below_nil (limit : Nat) : Below limit [] := nofun

theorem below_cons {limit : Nat} (h : ∀ op, BinaryOp.ofToken? t = some op → op.left ≤ limit) :
    Below limit (t :: ts) := by
  rintro _ ⟨⟩ op hop
  exact h op hop

theorem head?_ne_of_ne (h : ∀ vs, ts = t :: vs → False) : ts.head? ≠ some t := fun ht =>
  have ⟨vs, hvs⟩ := List.head?_eq_some_iff.1 ht
  h vs hvs

/-! ### Productions

Each production is shown to derive what it reads with functions in the place of the other ones that do. -/

section Productions

variable {exp : Nat → List Token → Option (Exp String × List Token)}
  {tail : Nat → Exp String → List Token → Option (Exp String × List Token)}
  {operand : List Token → Option (Exp String × List Token)}
  {simple primary : Token → List Token → Option (Exp String × List Token)}
  {suffixes : Exp String → List Token → Option (Exp String × List Token)}
  {fields : List Token → Option (List (TableField String) × List Token)}
  {field : List Token → Option (TableField String × List Token)}
  {arguments more results : List Token → Option (List (Exp String) × List Token)}
  {block : List Token → Option (List (Stat String) × List Token)}
  {statement : Token → List Token → Option (Stat String × List Token)}

theorem derived_exp (hoperand : ∀ ts, Derived .operand ts (operand ts))
    (htail : ∀ limit x ts, Derived (.tail limit x) ts (tail limit x ts)) (limit : Nat) (ts : List Token) :
    Derived (.exp limit) ts (do
      let (x, rest) ← operand ts
      tail limit x rest) :=
  Derived.bind .operand (hoperand ts) fun x rest hx r hr => .exp hx (htail limit x rest r hr)

theorem derived_operand (hexp : ∀ limit ts, Derived (.exp limit) ts (exp limit ts))
    (hsimple : ∀ t ts, Derived .simple (t :: ts) (simple t ts)) (ts : List Token) :
    Derived .operand ts
      (match ts with
        | [] => none
        | t :: rest =>
          match UnaryOp.ofToken? t with
          | some op => do
            let (x, rest) ← exp UnaryOp.priority rest
            some (.unary op x, rest)
          | none => simple t rest) := by
  split
  · exact derived_none
  · split
    · rename_i hop
      exact Derived.bind (.exp UnaryOp.priority) (hexp _ _) fun x rest hx => derived_some (.unary hop hx)
    · exact fun r hr => .simple (hsimple _ _ r hr)

theorem derived_tail (hexp : ∀ limit ts, Derived (.exp limit) ts (exp limit ts))
    (htail : ∀ limit x ts, Derived (.tail limit x) ts (tail limit x ts)) (limit : Nat) (x : Exp String)
    (ts : List Token) :
    Derived (.tail limit x) ts
      (match ts with
        | [] => some (x, [])
        | t :: rest =>
          match BinaryOp.ofToken? t with
          | none => some (x, t :: rest)
          | some op =>
            if limit < op.left then do
              let (y, rest) ← exp op.right rest
              tail limit (.binary op x y) rest
            else some (x, t :: rest)) := by
  split
  · exact derived_some (.noBinary (below_nil limit))
  · split
    · rename_i hop
      exact derived_some (.noBinary (below_cons (by simp [hop])))
    · rename_i op hop
      split
      · rename_i hlimit
        exact Derived.bind (.exp op.right) (hexp _ _) fun y rest hy r hr =>
          .binary hop hlimit hy (htail limit (.binary op x y) rest r hr)
      · rename_i hlimit
        exact derived_some (.noBinary (below_cons (by simpa [hop] using hlimit)))

theorem derived_simple (hprimary : ∀ t ts, Derived .primary (t :: ts) (primary t ts))
    (hfields : ∀ ts, Derived .fields ts (fields ts)) (hblock : ∀ ts, Derived .block ts (block ts))
    (t : Token) (ts : List Token) :
    Derived .simple (t :: ts)
      (match t with
        | .keyword .nilWord => some (.nil, ts)
        | .keyword .trueWord => some (.boolean true, ts)
        | .keyword .falseWord => some (.boolean false, ts)
        | .numeral text => some (.numeral text, ts)
        | .string value => some (.string value, ts)
        | .mark .leftBrace => do
          let (fs, rest) ← fields ts
          some (.table fs, rest)
        | .keyword .functionWord => do
          let rest ← expect (.mark .leftParen) ts
          let (parameters, rest) ← parseNames true rest
          let (body, rest) ← block rest
          let rest ← expect (.keyword .endWord) rest
          some (.function parameters body, rest)
        | t => primary t ts) := by
  split
  iterate 5 exact derived_some (.atom rfl)
  · exact Derived.bind .fields (hfields ts) fun fs rest hfs => derived_some (.table hfs)
  · refine derived_expect ?_
    rintro us rfl r hr
    obtain ⟨⟨parameters, rest⟩, hparameters, hr⟩ := Option.bind_eq_some_iff.1 hr
    obtain ⟨⟨body, rest⟩, hbody, hr⟩ := Option.bind_eq_some_iff.1 hr
    refine derived_expect (fun us hus => ?_) r hr
    have hbody : Derives .block _ body (.keyword .endWord :: us) := hus ▸ hblock _ _ hbody
    exact derived_some (.function hparameters hbody)
  · exact fun r hr => .primary (hprimary _ _ r hr)

theorem derived_primary (hexp : ∀ limit ts, Derived (.exp limit) ts (exp limit ts))
    (hsuffixes : ∀ x ts, Derived (.suffixes x) ts (suffixes x ts)) (t : Token) (ts : List Token) :
    Derived .primary (t :: ts)
      (match t with
        | .name n => suffixes (.name n) ts
        | .mark .leftParen => do
          let (x, rest) ← exp 0 ts
          let rest ← expect (.mark .rightParen) rest
          suffixes (.paren x) rest
        | _ => none) := by
  split
  · exact fun r hr => .name (hsuffixes _ _ r hr)
  · refine Derived.bind (.exp 0) (hexp _ _) fun x rest hx => derived_expect ?_
    rintro us rfl r hr
    exact .paren hx (hsuffixes _ _ r hr)
  · exact derived_none

theorem derived_index (hexp : ∀ limit ts, Derived (.exp limit) ts (exp limit ts))
    (hsuffixes : ∀ x ts, Derived (.suffixes x) ts (suffixes x ts)) (x : Exp String) (ts : List Token) :
    Derived (.suffixes x) (.mark .leftBracket :: ts) (do
      let (key, rest) ← exp 0 ts
      let rest ← expect (.mark .rightBracket) rest
      suffixes (.index x key) rest) := by
  refine Derived.bind (.exp 0) (hexp _ _) fun key rest hkey => derived_expect ?_
  rintro us rfl r hr
  exact .index hkey (hsuffixes (.index x key) us r hr)

theorem derived_suffixes (hexp : ∀ limit ts, Derived (.exp limit) ts (exp limit ts))
    (hsuffixes : ∀ x ts, Derived (.suffixes x) ts (suffixes x ts))
    (hfields : ∀ ts, Derived .fields ts (fields ts))
    (harguments : ∀ ts, Derived .arguments ts (arguments ts)) (x : Exp String) (ts : List Token) :
    Derived (.suffixes x) ts
      (match ts with
        | .mark .dot :: .name member :: rest => suffixes (.field x member) rest
        | .mark .leftBracket :: rest => do
          let (key, rest) ← exp 0 rest
          let rest ← expect (.mark .rightBracket) rest
          suffixes (.index x key) rest
        | .mark .colon :: .name member :: .mark .leftParen :: rest => do
          let (xs, rest) ← arguments rest
          suffixes (.invoke x member xs) rest
        | .mark .leftParen :: rest => do
          let (xs, rest) ← arguments rest
          suffixes (.call x xs) rest
        | .string value :: rest => suffixes (.call x [.string value]) rest
        | .mark .leftBrace :: rest => do
          let (fs, rest) ← fields rest
          suffixes (.call x [.table fs]) rest
        | ts => some (x, ts)) := by
  split
  · exact fun r hr => .member (hsuffixes (.field x _) _ r hr)
  · exact derived_index hexp hsuffixes x _
  · exact Derived.bind .arguments (harguments _) fun xs rest hxs r hr =>
      .invoke hxs (hsuffixes (.invoke x _ xs) rest r hr)
  · exact Derived.bind .arguments (harguments _) fun xs rest hxs r hr =>
      .call hxs (hsuffixes (.call x xs) rest r hr)
  · exact fun r hr => .callString (hsuffixes (.call x [.string _]) _ r hr)
  · exact Derived.bind .fields (hfields _) fun fs rest hfs r hr =>
      .callTable hfs (hsuffixes (.call x [.table fs]) rest r hr)
  · rename_i hmember hindex hinvoke hcall hstring htable
    refine derived_some (.noSuffix ?_)
    unfold opensSuffix
    split
    · exact (hmember _ _ rfl).elim
    · exact (hindex _ rfl).elim
    · exact (hinvoke _ _ rfl).elim
    · exact (hcall _ rfl).elim
    · exact (hstring _ _ rfl).elim
    · exact (htable _ rfl).elim
    · rfl

theorem derived_fields (hfields : ∀ ts, Derived .fields ts (fields ts))
    (hfield : ∀ ts, Derived .field ts (field ts)) (ts : List Token) :
    Derived .fields ts
      (match ts with
        | .mark .rightBrace :: rest => some ([], rest)
        | ts => do
          let (f, rest) ← field ts
          match rest with
          | .mark .comma :: rest => do
            let (fs, rest) ← fields rest
            some (f :: fs, rest)
          | .mark .semicolon :: rest => do
            let (fs, rest) ← fields rest
            some (f :: fs, rest)
          | .mark .rightBrace :: rest => some ([f], rest)
          | _ => none) := by
  split
  · exact derived_some .noFields
  · refine Derived.bind .field (hfield _) fun f rest hf => ?_
    dsimp only
    split
    · exact Derived.bind .fields (hfields _) fun fs rest hfs =>
        derived_some (.fields (.inl rfl) hf hfs)
    · exact Derived.bind .fields (hfields _) fun fs rest hfs =>
        derived_some (.fields (.inr rfl) hf hfs)
    · exact derived_some (.lastField hf)
    · exact derived_none

theorem derived_field (hexp : ∀ limit ts, Derived (.exp limit) ts (exp limit ts)) (ts : List Token) :
    Derived .field ts
      (match ts with
        | .mark .leftBracket :: rest => do
          let (key, rest) ← exp 0 rest
          let rest ← expect (.mark .rightBracket) rest
          let rest ← expect (.mark .assign) rest
          let (value, rest) ← exp 0 rest
          some (.keyed key value, rest)
        | ts => do
          let (value, rest) ← exp 0 ts
          some (.item value, rest)) := by
  split
  · refine Derived.bind (.exp 0) (hexp _ _) fun key rest hkey => derived_expect ?_
    rintro us rfl
    refine derived_expect ?_
    rintro us rfl
    exact Derived.bind (.exp 0) (hexp _ _) fun value rest hvalue => derived_some (.keyed hkey hvalue)
  · exact Derived.bind (.exp 0) (hexp _ _) fun value rest hvalue => derived_some (.item hvalue)

theorem derived_arguments (hexp : ∀ limit ts, Derived (.exp limit) ts (exp limit ts))
    (hmore : ∀ ts, Derived .more ts (more ts)) (ts : List Token) :
    Derived .arguments ts
      (match ts with
        | .mark .rightParen :: rest => some ([], rest)
        | ts => do
          let (x, rest) ← exp 0 ts
          let (xs, rest) ← more rest
          let rest ← expect (.mark .rightParen) rest
          some (x :: xs, rest)) := by
  split
  · exact derived_some .noArguments
  · refine Derived.bind (.exp 0) (hexp _ _) fun x rest hx => ?_
    refine Derived.bind .more (hmore _) fun xs rest hxs => derived_expect ?_
    rintro us rfl
    exact derived_some (.arguments hx hxs)

theorem derived_more (hexp : ∀ limit ts, Derived (.exp limit) ts (exp limit ts))
    (hmore : ∀ ts, Derived .more ts (more ts)) (ts : List Token) :
    Derived .more ts
      (match ts with
        | .mark .comma :: rest => do
          let (x, rest) ← exp 0 rest
          let (xs, rest) ← more rest
          some (x :: xs, rest)
        | ts => some ([], ts)) := by
  split
  · refine Derived.bind (.exp 0) (hexp _ _) fun x rest hx => ?_
    exact Derived.bind .more (hmore _) fun xs rest hxs => derived_some (.more hx hxs)
  · rename_i hcomma
    refine derived_some (.noMore ?_)
    rintro _ ht rfl
    exact head?_ne_of_ne hcomma ht

theorem derived_block (hblock : ∀ ts, Derived .block ts (block ts))
    (hstatement : ∀ t ts, Derived .statement (t :: ts) (statement t ts))
    (hresults : ∀ ts, Derived .results ts (results ts)) (ts : List Token) :
    Derived .block ts
      (match ts with
        | [] => some ([], [])
        | t :: rest =>
          if endsBlock t then some ([], t :: rest)
          else if t = .keyword .returnWord then do
            let (values, rest) ← results rest
            let rest := skipSemicolon rest
            if isBlockEnd rest then some ([.result values], rest) else none
          else do
            let (s, rest) ← statement t rest
            let (statements, rest) ← block rest
            some (s :: statements, rest)) := by
  split
  · exact derived_some (.blockEnd rfl)
  · split
    · rename_i hend
      exact derived_some (.blockEnd hend)
    · split
      · rename_i hreturn
        subst hreturn
        refine Derived.bind .results (hresults _) fun values rest hvalues => ?_
        dsimp only
        split
        · rename_i hend
          exact derived_some (.result hvalues hend)
        · exact derived_none
      · refine Derived.bind .statement (hstatement _ _) fun s rest hs => ?_
        exact Derived.bind .block (hblock _) fun statements rest hstatements =>
          derived_some (.block hs hstatements)

theorem derived_results (hexp : ∀ limit ts, Derived (.exp limit) ts (exp limit ts))
    (hmore : ∀ ts, Derived .more ts (more ts)) (ts : List Token) :
    Derived .results ts
      (match ts with
        | [] => some ([], [])
        | t :: rest =>
          if endsBlock t || t = .mark .semicolon then some ([], t :: rest)
          else do
            let (x, rest) ← exp 0 (t :: rest)
            let (xs, rest) ← more rest
            some (x :: xs, rest)) := by
  split
  · exact derived_some (.noResults (.inl rfl))
  · split
    · rename_i hend
      refine derived_some (.noResults ((Bool.or_eq_true_iff.1 hend).imp id fun ht => ?_))
      exact congrArg some (of_decide_eq_true ht)
    · refine Derived.bind (.exp 0) (hexp _ _) fun x rest hx => ?_
      exact Derived.bind .more (hmore _) fun xs rest hxs => derived_some (.results hx hxs)

theorem derived_nested (hblock : ∀ ts, Derived .block ts (block ts)) (ts : List Token) :
    Derived .statement (.keyword .doWord :: ts) (do
      let (body, rest) ← block ts
      let rest ← expect (.keyword .endWord) rest
      some (.block body, rest)) := by
  refine Derived.bind .block (hblock _) fun body rest hbody => derived_expect ?_
  rintro us rfl
  exact derived_some (.nested hbody)

theorem derived_conditional (hexp : ∀ limit ts, Derived (.exp limit) ts (exp limit ts))
    (hblock : ∀ ts, Derived .block ts (block ts)) (ts : List Token) :
    Derived .statement (.keyword .ifWord :: ts) (do
      let (condition, rest) ← exp 0 ts
      let rest ← expect (.keyword .thenWord) rest
      let (consequence, rest) ← block rest
      match rest with
      | .keyword .elseWord :: rest => do
        let (alternative, rest) ← block rest
        let rest ← expect (.keyword .endWord) rest
        some (.conditional condition consequence alternative, rest)
      | rest => do
        let rest ← expect (.keyword .endWord) rest
        some (.conditional condition consequence [], rest)) := by
  refine Derived.bind (.exp 0) (hexp _ _) fun condition rest hcondition => derived_expect ?_
  rintro us rfl
  refine Derived.bind .block (hblock _) fun consequence rest hconsequence => ?_
  dsimp only
  split
  · refine Derived.bind .block (hblock _) fun alternative rest halternative => derived_expect ?_
    rintro us rfl
    exact derived_some (.alternative hcondition hconsequence halternative)
  · refine derived_expect ?_
    rintro us rfl
    exact derived_some (.conditional hcondition hconsequence)

theorem derived_local (hexp : ∀ limit ts, Derived (.exp limit) ts (exp limit ts))
    (hmore : ∀ ts, Derived .more ts (more ts)) (n : String) (ts : List Token) :
    Derived .statement (.keyword .localWord :: .name n :: ts)
      (let (attrib, rest) := parseAttribute ts
      match rest with
      | .mark .assign :: rest => do
        let (x, rest) ← exp 0 rest
        let (xs, rest) ← more rest
        some (.declare n attrib (x :: xs), rest)
      | rest => some (.declare n attrib [], rest)) := by
  dsimp only
  split
  · rename_i hattrib
    refine Derived.bind (.exp 0) (hexp _ _) fun x rest hx => ?_
    exact Derived.bind .more (hmore _) fun xs rest hxs =>
      derived_some (.declareValues (Prod.ext rfl hattrib) hx hxs)
  · rename_i hassign
    exact derived_some (.declare rfl (head?_ne_of_ne hassign))

/-- A statement that begins with a name or with parentheses is an assignment or a call. -/
theorem derived_assignment (hexp : ∀ limit ts, Derived (.exp limit) ts (exp limit ts))
    (hprimary : ∀ t ts, Derived .primary (t :: ts) (primary t ts)) (t : Token) (ts : List Token) :
    Derived .statement (t :: ts) (do
      let (x, rest) ← primary t ts
      match rest with
      | .mark .assign :: rest =>
        if x.isVariable then do
          let (value, rest) ← exp 0 rest
          some (.assign x value, rest)
        else none
      | rest => if x.isCall then some (.call x, rest) else none) := by
  refine Derived.bind .primary (hprimary _ _) fun x rest hx => ?_
  dsimp only
  split
  · split
    · rename_i hvariable
      exact Derived.bind (.exp 0) (hexp _ _) fun value rest hvalue =>
        derived_some (.assign hx hvariable hvalue)
    · exact derived_none
  · rename_i hassign
    split
    · rename_i hcall
      exact derived_some (.callStatement hx (head?_ne_of_ne hassign) hcall)
    · exact derived_none

end Productions

/-- Whatever a production reads is derived by it. The productions are partial functions, so this is shown for
whatever satisfies their equations: one case per production, with the others given. -/
theorem derived_parse (p : Production) (ts : List Token) : Derived p ts (p.parse ts) := by
  have h := parseExp.mutual_partial_correctness
    (fun limit ts r => Derives (.exp limit) ts r.1 r.2)
    (fun limit x ts r => Derives (.tail limit x) ts r.1 r.2)
    (fun ts r => Derives .operand ts r.1 r.2)
    (fun t ts r => Derives .simple (t :: ts) r.1 r.2)
    (fun t ts r => Derives .primary (t :: ts) r.1 r.2)
    (fun x ts r => Derives (.suffixes x) ts r.1 r.2)
    (fun ts r => Derives .fields ts r.1 r.2)
    (fun ts r => Derives .field ts r.1 r.2)
    (fun ts r => Derives .arguments ts r.1 r.2)
    (fun ts r => Derives .more ts r.1 r.2)
    (fun ts r => Derives .block ts r.1 r.2)
    (fun t ts r => Derives .statement (t :: ts) r.1 r.2)
    (fun ts r => Derives .results ts r.1 r.2)
    ?exp ?tail ?operand ?simple ?primary ?suffixes ?fields ?field ?arguments ?more ?block ?statement ?results
  · obtain ⟨hexp, htail, hoperand, hsimple, hprimary, hsuffixes, hfields, hfield, harguments, hmore, hblock,
      hstatement, hresults⟩ := h
    cases p with
    | exp limit => exact hexp limit ts
    | tail limit x => exact htail limit x ts
    | operand => exact hoperand ts
    | simple => cases ts with
      | nil => exact derived_none
      | cons t ts => exact hsimple t ts
    | primary => cases ts with
      | nil => exact derived_none
      | cons t ts => exact hprimary t ts
    | suffixes x => exact hsuffixes x ts
    | fields => exact hfields ts
    | field => exact hfield ts
    | arguments => exact harguments ts
    | more => exact hmore ts
    | block => exact hblock ts
    | statement => cases ts with
      | nil => exact derived_none
      | cons t ts => exact hstatement t ts
    | results => exact hresults ts
  case exp => exact fun _ _ htail hoperand => derived_exp hoperand htail
  case tail => exact fun _ _ hexp htail => derived_tail hexp htail
  case operand => exact fun _ _ hexp hsimple => derived_operand hexp hsimple
  case simple => exact fun _ _ _ hprimary hfields hblock => derived_simple hprimary hfields hblock
  case primary => exact fun _ _ hexp hsuffixes => derived_primary hexp hsuffixes
  case suffixes => exact fun _ _ _ _ hexp hsuffixes => derived_suffixes hexp hsuffixes
  case fields => exact fun _ _ hfields hfield => derived_fields hfields hfield
  case field => exact fun _ hexp => derived_field hexp
  case arguments => exact fun _ _ hexp hmore => derived_arguments hexp hmore
  case more => exact fun _ _ hexp hmore => derived_more hexp hmore
  case block => exact fun _ _ _ hblock hstatement hresults => derived_block hblock hstatement hresults
  case statement =>
    intro _ _ _ _ hexp hprimary hmore hblock t ts
    refine (?_ : Derived .statement (t :: ts) _)
    split
    · exact derived_some .empty
    · exact derived_nested hblock ts
    · exact derived_conditional hexp hblock ts
    · split
      · exact derived_local hexp hmore _ _
      · exact derived_none
    · exact derived_assignment hexp hprimary t ts
  case results => exact fun _ _ hexp hmore => derived_results hexp hmore

/-- What is derived is what is read. -/
theorem derives_iff {r : p.Result} : Derives p ts r us ↔ p.parse ts = some (r, us) :=
  ⟨Derives.parse_eq, derived_parse p ts _⟩

end CodeTree.Lua
