import CodeTree.Proofs.Reading.Derivation

/-! # Reading is the inverse of spelling

The tokens of a well-formed syntax tree, with whatever cannot belong to it behind them, are read as
that tree. The part that carries the argument is about operators: an expression whose left end binds
tighter than the limit, before tokens that its right end does not take, is read up to its own end, and
reading goes on behind it.

* `Reads x`: what it means that the tokens of `x` are read as `x`.
* `reads_exp` and `reads_stats`: well-formed trees are read as themselves.
* `parseExp_tokens`: an expression before tokens that do not belong to it. -/

namespace CodeTree.Lua

open List

set_option autoImplicit false

/-- Whether a token behind an expression is taken as an access to it or a call of it. -/
def isSuffixToken : Token → Bool
  | .mark .dot | .mark .leftBracket | .mark .colon | .mark .leftParen | .mark .leftBrace
  | .string _ => true
  | _ => false

/-- The tokens do not begin with an access, a call or an operator that binds tighter than `limit`. -/
def Follows (limit : Nat) (tokens : List Token) : Prop :=
  ∀ t ∈ tokens.head?, isSuffixToken t = false ∧ ∀ op ∈ BinaryOp.ofToken? t, op.left ≤ limit

def Closes (tokens : List Token) : Prop :=
  ∀ t ∈ tokens.head?, isSuffixToken t = false ∧ BinaryOp.ofToken? t = none

/-- The tokens do not begin with anything that continues a statement. -/
def Ends (tokens : List Token) : Prop :=
  Closes tokens ∧ ∀ t ∈ tokens.head?, t ≠ .mark .comma ∧ t ≠ .mark .assign

/-- The tokens of `x` are read as `x`. Behind the tokens of a name, an access, a call or parentheses,
accesses and calls are read; behind those of any expression, operators. -/
structure Reads (x : Exp String) : Prop where
  suffixes : x.isPrefix = true → ∀ {rest y us}, Derives (.suffixes x) rest y us →
    Derives .primary (x.tokens id ++ rest) y us
  operators : ∀ {limit rest y us}, limit < x.strength → Follows x.tail rest →
    Derives (.tail limit x) rest y us → Derives (.exp limit) (x.tokens id ++ rest) y us

variable {x y : Exp String} {t : Token} {ts rest : List Token}

/-! ## Behind an expression -/

theorem Closes.follows (h : Closes rest) (limit : Nat) : Follows limit rest := by
  intro t ht
  obtain ⟨hsuffix, hop⟩ := h t ht
  exact ⟨hsuffix, by simp [hop]⟩

theorem closes_cons (hsuffix : isSuffixToken t = false) (hop : BinaryOp.ofToken? t = none) :
    Closes (t :: rest) := by
  rintro _ ⟨⟩
  exact ⟨hsuffix, hop⟩

theorem Follows.below {limit : Nat} (h : Follows limit rest) : Below limit rest := fun t ht => (h t ht).2

theorem Follows.opensSuffix {limit : Nat} (h : Follows limit rest) : opensSuffix rest = false := by
  unfold CodeTree.Lua.opensSuffix
  split
  all_goals first
    | rfl
    | cases (h _ rfl).1

theorem Follows.min_left {a b : Nat} (h : Follows (min a b) rest) : Follows a rest := fun t ht =>
  ⟨(h t ht).1, fun op hop => Nat.le_trans ((h t ht).2 op hop) (Nat.min_le_left a b)⟩

theorem Follows.min_right {a b : Nat} (h : Follows (min a b) rest) : Follows b rest := fun t ht =>
  ⟨(h t ht).1, fun op hop => Nat.le_trans ((h t ht).2 op hop) (Nat.min_le_right a b)⟩

/-! ## Operators -/

theorem Reads.operand {limit : Nat} (h : Reads x) (hlimit : limit < x.strength)
    (htail : Follows x.tail rest) (hrest : Follows limit rest) :
    Derives (.exp limit) (x.tokens id ++ rest) x rest :=
  h.operators hlimit htail (.noBinary hrest.below)

theorem Reads.exp (h : Reads x) (hwf : x.WF) (hrest : Closes rest) :
    Derives (.exp 0) (x.tokens id ++ rest) x rest :=
  h.operand (Exp.strength_pos hwf) (hrest.follows _) (hrest.follows 0)

theorem isSuffixToken_token (op : BinaryOp) : isSuffixToken op.token = false := by
  cases op <;> rfl

theorem reads_binary {op : BinaryOp} (hx : Reads x) (hy : Reads y) (hwf : (Exp.binary op x y).WF) :
    Reads (.binary op x y) := by
  obtain ⟨hcustom, -, -, hleft, hright⟩ := hwf
  refine ⟨nofun, fun {limit rest z us} hlimit hrest hnext => ?_⟩
  obtain ⟨hop, hstrength⟩ := Nat.lt_min.1 hlimit
  have htoken := BinaryOp.ofToken?_token hcustom
  have hfollows : Follows x.tail (op.token :: (y.tokens id ++ rest)) := by
    rintro _ ⟨⟩
    refine ⟨isSuffixToken_token op, fun op' hop' => ?_⟩
    obtain rfl : op = op' := by simpa [htoken] using hop'
    exact hleft
  have htokens : (Exp.binary op x y).tokens id ++ rest =
      x.tokens id ++ op.token :: (y.tokens id ++ rest) :=
    List.append_assoc _ _ _
  rw [htokens]
  exact hx.operators hstrength hfollows
    (.binary htoken hop (hy.operand hright hrest.min_right hrest.min_left) hnext)

theorem reads_unary {op : UnaryOp} (hx : Reads x) (hwf : (Exp.unary op x).WF) :
    Reads (.unary op x) := by
  obtain ⟨hcustom, -, hstrength⟩ := hwf
  refine ⟨nofun, fun _ hrest hnext => ?_⟩
  exact .exp (.unary (UnaryOp.ofToken?_token hcustom) (hx.operand hstrength hrest.min_right hrest.min_left))
    hnext

theorem reads_of_simple (hprimary : x.isPrefix = false)
    (h : ∀ rest, Derives .simple (x.tokens id ++ rest) x rest) : Reads x :=
  ⟨fun hp => absurd hp (by simp [hprimary]), fun _ _ hnext => .exp (.simple (h _)) hnext⟩

/-! ## Accesses and calls -/

/-- Names, accesses, calls and parentheses are read by their accesses and calls. -/
theorem reads_of_suffixes (h : ∀ {rest y us}, Derives (.suffixes x) rest y us →
    Derives .primary (x.tokens id ++ rest) y us) : Reads x :=
  ⟨fun _ => h, fun _ hrest hnext => .exp (.simple (.primary (h (.noSuffix hrest.opensSuffix)))) hnext⟩

theorem Reads.suffix {x' : Exp String} (hx : Reads x) (hprimary : x.isPrefix = true)
    (htokens : x'.tokens id = x.tokens id ++ ts)
    (h : ∀ {rest y us}, Derives (.suffixes x') rest y us → Derives (.suffixes x) (ts ++ rest) y us) :
    Reads x' := by
  refine reads_of_suffixes fun hnext => ?_
  rw [htokens, List.append_assoc]
  exact hx.suffixes hprimary (h hnext)

theorem reads_name (n : String) : Reads (.name n) := reads_of_suffixes .name

theorem reads_paren (hx : Reads x) (hwf : x.WF) : Reads (.paren x) := by
  refine reads_of_suffixes fun {rest y us} hnext => ?_
  have htokens : (Exp.paren x).tokens id ++ rest =
      .mark .leftParen :: (x.tokens id ++ .mark .rightParen :: rest) :=
    List.append_assoc (.mark .leftParen :: x.tokens id) _ _
  rw [htokens]
  exact .paren (hx.exp hwf (closes_cons rfl rfl)) hnext

theorem reads_field {member : String} (hx : Reads x) (hwf : (Exp.field x member).WF) :
    Reads (.field x member) :=
  hx.suffix hwf.1 rfl .member

theorem reads_index {key : Exp String} (hx : Reads x) (hkey : Reads key)
    (hwf : (Exp.index x key).WF) : Reads (.index x key) := by
  obtain ⟨hprimary, -, hwf⟩ := hwf
  have htokens : (Exp.index x key).tokens id =
      x.tokens id ++ (.mark .leftBracket :: (key.tokens id ++ [.mark .rightBracket])) :=
    List.append_assoc _ _ _
  refine hx.suffix hprimary htokens fun hnext => ?_
  rw [List.cons_append, List.append_assoc]
  exact .index (hkey.exp hwf (closes_cons rfl rfl)) hnext

/-! ## Lists of expressions -/

theorem closes_tokensExps (xs : List (Exp String)) (hrest : Closes rest) :
    Closes (tokensExps id false xs ++ rest) := by
  cases xs with
  | nil => exact hrest
  | cons x xs => exact closes_cons rfl rfl

theorem derives_more {xs : List (Exp String)} (h : ∀ x ∈ xs, Reads x) (hwf : wfExps xs)
    (hrest : Closes rest) (hcomma : ∀ t ∈ rest.head?, t ≠ .mark .comma) :
    Derives .more (tokensExps id false xs ++ rest) xs rest := by
  induction xs with
  | nil => exact .noMore hcomma
  | cons x xs ih =>
    rw [List.forall_mem_cons] at h
    rw [tokensExps, List.append_assoc]
    exact .more (h.1.exp hwf.1 (closes_tokensExps xs hrest)) (ih h.2 hwf.2)

theorem derives_arguments {xs : List (Exp String)} (h : ∀ x ∈ xs, Reads x) (hwf : wfExps xs) :
    Derives .arguments (tokensExps id true xs ++ .mark .rightParen :: rest) xs rest := by
  cases xs with
  | nil => exact .noArguments
  | cons x xs =>
    rw [List.forall_mem_cons] at h
    have hclose : Closes (.mark .rightParen :: rest) := closes_cons rfl rfl
    rw [tokensExps, List.append_assoc]
    exact .arguments (h.1.exp hwf.1 (closes_tokensExps xs hclose))
      (derives_more h.2 hwf.2 hclose (by rintro _ ⟨⟩; decide))

/-! ## Calls -/

theorem reads_call {arguments : List (Exp String)} (hx : Reads x) (h : ∀ y ∈ arguments, Reads y)
    (hwf : (Exp.call x arguments).WF) : Reads (.call x arguments) := by
  obtain ⟨hprimary, -, hwf⟩ := hwf
  have htokens : (Exp.call x arguments).tokens id =
      x.tokens id ++ (.mark .leftParen :: (tokensExps id true arguments ++ [.mark .rightParen])) :=
    List.append_assoc _ _ _
  refine hx.suffix hprimary htokens fun hnext => ?_
  rw [List.cons_append, List.append_assoc]
  exact .call (derives_arguments h hwf) hnext

theorem reads_invoke {member : String} {arguments : List (Exp String)} (hx : Reads x)
    (h : ∀ y ∈ arguments, Reads y) (hwf : (Exp.invoke x member arguments).WF) :
    Reads (.invoke x member arguments) := by
  obtain ⟨hprimary, -, hwf⟩ := hwf
  have htokens : (Exp.invoke x member arguments).tokens id = x.tokens id ++ (.mark .colon ::
      .name member :: .mark .leftParen :: (tokensExps id true arguments ++ [.mark .rightParen])) :=
    List.append_assoc _ _ _
  refine hx.suffix hprimary htokens fun hnext => ?_
  rw [List.cons_append, List.cons_append, List.cons_append, List.append_assoc]
  exact .invoke (derives_arguments h hwf) hnext

/-! ## Tables -/

def ReadsField (f : TableField String) : Prop :=
  ∀ rest, Closes rest → Derives .field (f.tokens id ++ rest) f rest

theorem readsField_keyed {key value : Exp String} (hkey : Reads key) (hvalue : Reads value)
    (hwfKey : key.WF) (hwfValue : value.WF) : ReadsField (.keyed key value) := by
  intro rest hrest
  have htokens : (TableField.keyed key value).tokens id ++ rest = .mark .leftBracket ::
      (key.tokens id ++ .mark .rightBracket :: .mark .assign :: (value.tokens id ++ rest)) :=
    List.append_assoc _ _ _
  rw [htokens]
  exact .keyed (hkey.exp hwfKey (closes_cons rfl rfl)) (hvalue.exp hwfValue hrest)

theorem derives_fields {fs : List (TableField String)} (h : ∀ f ∈ fs, ReadsField f) :
    Derives .fields (tokensFields id true fs ++ .mark .rightBrace :: rest) fs rest := by
  induction fs with
  | nil => exact .noFields
  | cons f fs ih =>
    rw [List.forall_mem_cons] at h
    rw [tokensFields, List.append_assoc]
    cases fs with
    | nil => exact .lastField (h.1 _ (closes_cons rfl rfl))
    | cons f' fs' => exact .fields (.inl rfl) (h.1 _ (closes_cons rfl rfl)) (ih h.2)

theorem reads_table {fs : List (TableField String)} (h : ∀ f ∈ fs, ReadsField f) :
    Reads (.table fs) := by
  refine reads_of_simple rfl fun rest => ?_
  have htokens : (Exp.table fs).tokens id ++ rest =
      .mark .leftBrace :: (tokensFields id true fs ++ .mark .rightBrace :: rest) :=
    List.append_assoc (.mark .leftBrace :: tokensFields id true fs) _ _
  rw [htokens]
  exact .table (derives_fields h)

/-! ## Statements -/

/-- The tokens of a statement are read as that statement; those of a return are read as its results. -/
structure ReadsStat (s : Stat String) : Prop where
  statement : s.isResult = false → ∀ {rest}, (s.isEmpty = true ∨ Ends rest) →
    Derives .statement (s.tokens id ++ rest) s rest
  result : ∀ {values}, s = .result values → ∀ {rest}, isBlockEnd rest = true →
    Derives .results (tokensExps id true values ++ rest) values rest

/-- The tokens of statements up to the end of their block are read as these statements. -/
def ReadsBlock (statements : List (Stat String)) : Prop :=
  ∀ rest, isBlockEnd rest = true → Derives .block (tokensStats id statements ++ rest) statements rest

theorem ends_of_isBlockEnd (h : isBlockEnd rest = true) : Ends rest := by
  cases rest with
  | nil => exact ⟨nofun, nofun⟩
  | cons t rest =>
    have ht : ∃ k, t = .keyword k ∧ BinaryOp.ofToken? (.keyword k) = none := by
      change endsBlock t = true at h
      unfold endsBlock at h
      split at h
      all_goals first
        | exact ⟨_, rfl, rfl⟩
        | exact nomatch h
    obtain ⟨k, rfl, hop⟩ := ht
    refine ⟨closes_cons rfl hop, ?_⟩
    rintro _ ⟨⟩
    exact ⟨nofun, nofun⟩

/-- A name, an access, a call or parentheses begins with a name or a parenthesis. -/
theorem Exp.exists_name {ν : Type} (text : ν → String) : ∀ {x : Exp ν}, x.isPrefix = true → x.WF →
    x.opensParen = false → ∃ n ts, x.tokens text = .name n :: ts
  | .name n, _, _, _ => ⟨text n, [], rfl⟩
  | .field x member, _, hwf, h => by
    obtain ⟨n, ts, hx⟩ := Exp.exists_name text hwf.1 hwf.2 h
    exact ⟨n, _, by rw [Exp.tokens, hx]; rfl⟩
  | .index x key, _, hwf, h => by
    obtain ⟨n, ts, hx⟩ := Exp.exists_name text hwf.1 hwf.2.1 h
    exact ⟨n, _, by rw [Exp.tokens, hx]; rfl⟩
  | .call x arguments, _, hwf, h => by
    obtain ⟨n, ts, hx⟩ := Exp.exists_name text hwf.1 hwf.2.1 h
    exact ⟨n, _, by rw [Exp.tokens, hx]; rfl⟩
  | .invoke x member arguments, _, hwf, h => by
    obtain ⟨n, ts, hx⟩ := Exp.exists_name text hwf.1 hwf.2.1 h
    exact ⟨n, _, by rw [Exp.tokens, hx]; rfl⟩

theorem ends_name {n : String} : Ends (.name n :: rest) :=
  ⟨closes_cons rfl rfl, by rintro _ ⟨⟩; exact ⟨nofun, nofun⟩⟩

/-- A statement that does not begin with a parenthesis cannot continue the one before it. -/
theorem ends_tokensStats {statements : List (Stat String)} (hwf : wfStats statements)
    (hopens : Stat.opensParen statements = false) (hrest : isBlockEnd rest = true) :
    Ends (tokensStats id statements ++ rest) := by
  have hcons : ∀ {t : Token} {ts : List Token}, isSuffixToken t = false →
      BinaryOp.ofToken? t = none → t ≠ .mark .comma ∧ t ≠ .mark .assign → Ends (t :: ts) := by
    intro t ts hsuffix hop hne
    exact ⟨closes_cons hsuffix hop, by rintro _ ⟨⟩; exact hne⟩
  match statements with
  | [] => exact ends_of_isBlockEnd hrest
  | .empty :: _ => exact hcons rfl rfl (by decide)
  | .declare _ _ [] :: _ => exact hcons rfl rfl (by decide)
  | .declare _ _ (_ :: _) :: _ => exact hcons rfl rfl (by decide)
  | .block _ :: _ => exact hcons rfl rfl (by decide)
  | .conditional _ _ [] :: _ => exact hcons rfl rfl (by decide)
  | .conditional _ _ (_ :: _) :: _ => exact hcons rfl rfl (by decide)
  | .result _ :: _ => exact hcons rfl rfl (by decide)
  | .assign target value :: _ =>
    obtain ⟨n, ts, hx⟩ := Exp.exists_name id (Exp.isPrefix_of_isVariable hwf.1.1) hwf.1.2.1 hopens
    rw [tokensStats, Stat.tokens, hx]
    exact ends_name
  | .call x :: _ =>
    obtain ⟨n, ts, hx⟩ := Exp.exists_name id (Exp.isPrefix_of_isCall hwf.1.1) hwf.1.2 hopens
    rw [tokensStats, Stat.tokens, hx]
    exact ends_name

theorem reads_result {xs : List (Exp String)} (h : ∀ x ∈ xs, Reads x) (hwf : wfExps xs) :
    ReadsStat (.result xs) := by
  refine ⟨nofun, ?_⟩
  rintro _ ⟨⟩ rest hrest
  obtain ⟨hclose, hne⟩ := ends_of_isBlockEnd hrest
  cases xs with
  | nil => exact .noResults (.inl hrest)
  | cons x xs =>
    rw [List.forall_mem_cons] at h
    rw [tokensExps, List.append_assoc]
    exact .results (h.1.exp hwf.1 (closes_tokensExps xs hclose))
      (derives_more h.2 hwf.2 hclose fun t ht => (hne t ht).1)

theorem readsStat_of_statement {s : Stat String} (hresult : s.isResult = false)
    (h : ∀ {rest}, (s.isEmpty = true ∨ Ends rest) → Derives .statement (s.tokens id ++ rest) s rest) :
    ReadsStat s := by
  refine ⟨fun _ => h, ?_⟩
  rintro values rfl
  exact nomatch hresult

theorem reads_empty : ReadsStat .empty := readsStat_of_statement rfl fun _ => .empty

theorem reads_block {body : List (Stat String)} (h : ReadsBlock body) : ReadsStat (.block body) := by
  refine readsStat_of_statement rfl fun {rest} _ => ?_
  have htokens : (Stat.block body).tokens id ++ rest =
      .keyword .doWord :: (tokensStats id body ++ .keyword .endWord :: rest) :=
    List.append_assoc (.keyword .doWord :: tokensStats id body) _ _
  rw [htokens]
  exact .nested (h _ rfl)

theorem reads_conditional {condition : Exp String} {consequence alternative : List (Stat String)}
    (hcondition : Reads condition) (hwf : condition.WF) (hconsequence : ReadsBlock consequence)
    (halternative : ReadsBlock alternative) :
    ReadsStat (.conditional condition consequence alternative) := by
  refine readsStat_of_statement (by cases alternative <;> rfl) fun {rest} _ => ?_
  cases alternative with
  | nil =>
    have htokens : (Stat.conditional condition consequence []).tokens id ++ rest = .keyword .ifWord ::
        (condition.tokens id ++ .keyword .thenWord ::
          (tokensStats id consequence ++ .keyword .endWord :: rest)) := by
      simp [Stat.tokens]
    rw [htokens]
    exact .conditional (hcondition.exp hwf (closes_cons rfl rfl)) (hconsequence _ rfl)
  | cons s alternative =>
    have htokens : (Stat.conditional condition consequence (s :: alternative)).tokens id ++ rest =
        .keyword .ifWord :: (condition.tokens id ++ .keyword .thenWord ::
          (tokensStats id consequence ++ .keyword .elseWord ::
            (tokensStats id (s :: alternative) ++ .keyword .endWord :: rest))) := by
      simp [Stat.tokens, tokensStats]
    rw [htokens]
    exact .alternative (hcondition.exp hwf (closes_cons rfl rfl)) (hconsequence _ rfl) (halternative _ rfl)

theorem parseAttribute_of_closes (h : Closes rest) : parseAttribute rest = (none, rest) := by
  unfold parseAttribute
  split
  · exact nomatch (h _ rfl).2
  · rfl

theorem parseAttribute_tokens {attrib : Option String} (h : Closes rest) :
    parseAttribute (tokensAttribute attrib ++ rest) = (attrib, rest) := by
  cases attrib with
  | none => exact parseAttribute_of_closes h
  | some attrib => rfl

theorem Ends.head?_ne (h : Ends rest) : rest.head? ≠ some (.mark .assign) := fun hhead =>
  (h.2 _ hhead).2 rfl

theorem reads_declare {n : String} {attrib : Option String} {values : List (Exp String)}
    (h : ∀ x ∈ values, Reads x) (hwf : wfExps values) : ReadsStat (.declare n attrib values) := by
  cases values with
  | nil =>
    refine readsStat_of_statement rfl fun hrest => ?_
    have hends : Ends _ := hrest.resolve_left (by simp [Stat.isEmpty])
    exact .declare (parseAttribute_tokens hends.1) hends.head?_ne
  | cons x xs =>
    rw [List.forall_mem_cons] at h
    refine readsStat_of_statement rfl fun {rest} hrest => ?_
    obtain ⟨hclose, hne⟩ : Ends rest := hrest.resolve_left (by simp [Stat.isEmpty])
    have htokens : (Stat.declare n attrib (x :: xs)).tokens id ++ rest = .keyword .localWord ::
        .name n :: (tokensAttribute attrib ++ .mark .assign ::
          (x.tokens id ++ (tokensExps id false xs ++ rest))) := by
      simp [Stat.tokens]
    rw [htokens]
    exact .declareValues (parseAttribute_tokens (closes_cons rfl rfl))
      (h.1.exp hwf.1 (closes_tokensExps xs hclose)) (derives_more h.2 hwf.2 hclose fun t ht => (hne t ht).1)

theorem reads_assign {target value : Exp String} (htarget : Reads target) (hvalue : Reads value)
    (hwf : (Stat.assign target value).WF) : ReadsStat (.assign target value) := by
  obtain ⟨hvariable, -, hwf⟩ := hwf
  refine readsStat_of_statement rfl fun {rest} hrest => ?_
  obtain ⟨hclose, -⟩ : Ends rest := hrest.resolve_left (by simp [Stat.isEmpty])
  rw [Stat.tokens, List.append_assoc, List.cons_append]
  exact .assign (htarget.suffixes (Exp.isPrefix_of_isVariable hvariable) (.noSuffix rfl)) hvariable
    (hvalue.exp hwf hclose)

theorem reads_callStat (hx : Reads x) (hwf : (Stat.call x).WF) : ReadsStat (.call x) := by
  obtain ⟨hcall, -⟩ := hwf
  refine readsStat_of_statement rfl fun hrest => ?_
  have hends : Ends _ := hrest.resolve_left (by simp [Stat.isEmpty])
  have hsuffix := (hends.1.follows 0).opensSuffix
  exact .callStatement (hx.suffixes (Exp.isPrefix_of_isCall hcall) (.noSuffix hsuffix)) hends.head?_ne hcall

theorem readsBlock_nil : ReadsBlock [] := fun _ hrest => .blockEnd hrest

theorem skipSemicolon_of_isBlockEnd (h : isBlockEnd rest = true) : skipSemicolon rest = rest := by
  unfold skipSemicolon
  split
  · exact nomatch h
  · rfl

theorem readsBlock_cons {s : Stat String} {statements : List (Stat String)} (hs : ReadsStat s)
    (hblock : ReadsBlock statements) (hwf : wfStats (s :: statements)) :
    ReadsBlock (s :: statements) := by
  intro rest hrest
  obtain ⟨-, hlast, hends, hwf⟩ := hwf
  cases hresult : s.isResult with
  | true =>
    obtain rfl := hlast hresult
    obtain ⟨values, rfl⟩ : ∃ values, s = .result values := by
      cases s <;> first | exact ⟨_, rfl⟩ | exact nomatch hresult
    have hskip := skipSemicolon_of_isBlockEnd hrest
    have hresults := Derives.result (hs.result rfl hrest) (hskip.symm ▸ hrest)
    rw [hskip] at hresults
    rw [tokensStats, tokensStats, List.append_nil]
    exact hresults
  | false =>
    rw [tokensStats, List.append_assoc]
    exact .block (hs.statement hresult (hends.imp_right fun hopens => ends_tokensStats hwf hopens hrest))
      (hblock rest hrest)

/-! ## Functions -/

theorem parseNames_tokens (ns : List String) :
    ∀ isFirst, parseNames isFirst (tokensNames id isFirst ns ++ .mark .rightParen :: rest) =
      some (ns, rest) := by
  induction ns with
  | nil => intro isFirst; cases isFirst <;> rfl
  | cons n ns ih =>
    intro isFirst
    cases isFirst <;> simp [tokensNames, parseNames, ih]

theorem reads_function {parameters : List String} {body : List (Stat String)} (h : ReadsBlock body) :
    Reads (.function parameters body) := by
  refine reads_of_simple rfl fun rest => ?_
  have htokens : (Exp.function parameters body).tokens id ++ rest = .keyword .functionWord ::
      .mark .leftParen :: (tokensNames id true parameters ++ .mark .rightParen ::
        (tokensStats id body ++ .keyword .endWord :: rest)) := by
    simp [Exp.tokens]
  rw [htokens]
  exact .function (parseNames_tokens parameters true) (h _ rfl)

/-! ## Well-formed trees -/

mutual

/-- Well-formed expressions are read as themselves. -/
theorem reads_exp : ∀ x : Exp String, x.WF → Reads x
  | .nil, _ => reads_of_simple rfl fun _ => .atom rfl
  | .boolean true, _ => reads_of_simple rfl fun _ => .atom rfl
  | .boolean false, _ => reads_of_simple rfl fun _ => .atom rfl
  | .numeral _, _ => reads_of_simple rfl fun _ => .atom rfl
  | .string _, _ => reads_of_simple rfl fun _ => .atom rfl
  | .name n, _ => reads_name n
  | .field x _, h => reads_field (reads_exp x h.2) h
  | .index x key, h => reads_index (reads_exp x h.2.1) (reads_exp key h.2.2) h
  | .call f arguments, h => reads_call (reads_exp f h.2.1) (reads_exps arguments h.2.2) h
  | .invoke x _ arguments, h => reads_invoke (reads_exp x h.2.1) (reads_exps arguments h.2.2) h
  | .paren x, h => reads_paren (reads_exp x h) h
  | .unary _ x, h => reads_unary (reads_exp x h.2.1) h
  | .binary _ x y, h => reads_binary (reads_exp x h.2.1) (reads_exp y h.2.2.1) h
  | .table fields, h => reads_table (reads_fields fields h)
  | .function _ body, h => reads_function (reads_stats body h)

theorem reads_exps : ∀ xs : List (Exp String), wfExps xs → ∀ x ∈ xs, Reads x
  | [], _ => nofun
  | x :: xs, h => List.forall_mem_cons.2 ⟨reads_exp x h.1, reads_exps xs h.2⟩

theorem reads_tableField : ∀ f : TableField String, f.WF → ReadsField f
  | .item value, h => fun _ hrest => .item ((reads_exp value h).exp h hrest)
  | .keyed key value, h => readsField_keyed (reads_exp key h.1) (reads_exp value h.2) h.1 h.2

theorem reads_fields : ∀ fs : List (TableField String), wfFields fs → ∀ f ∈ fs, ReadsField f
  | [], _ => nofun
  | f :: fs, h => List.forall_mem_cons.2 ⟨reads_tableField f h.1, reads_fields fs h.2⟩

theorem reads_stat : ∀ s : Stat String, s.WF → ReadsStat s
  | .empty, _ => reads_empty
  | .declare _ _ values, h => reads_declare (reads_exps values h) h
  | .assign target value, h => reads_assign (reads_exp target h.2.1) (reads_exp value h.2.2) h
  | .call x, h => reads_callStat (reads_exp x h.2) h
  | .block body, h => reads_block (reads_stats body h)
  | .conditional condition consequence alternative, h =>
    reads_conditional (reads_exp condition h.1) h.1 (reads_stats consequence h.2.1)
      (reads_stats alternative h.2.2)
  | .result values, h => reads_result (reads_exps values h) h

theorem reads_stats : ∀ statements : List (Stat String), wfStats statements → ReadsBlock statements
  | [], _ => readsBlock_nil
  | s :: statements, h => readsBlock_cons (reads_stat s h.1) (reads_stats statements h.2.2.2) h

end

/-- The tokens of a well-formed expression are read as that expression, and what does not belong to
it is left. -/
theorem parseExp_tokens (h : x.WF) (hrest : Closes rest) :
    parseExp 0 (x.tokens id ++ rest) = some (x, rest) :=
  ((reads_exp x h).exp h hrest).parse_eq

end CodeTree.Lua
