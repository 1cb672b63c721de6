import CodeTree.Proofs.Reading.Inverse
import CodeTree.Proofs.Reading.Returns

/-! # Reading emitted expressions back

Operations stand in parentheses, so the only operator outside of them is the minus sign of a negative
number. It binds tighter than every operator that is written behind it but a custom power, and no access
is written behind a number. So the syntax tree of a tree is well-formed, and the emitted text is read back
as this tree.

Of statements only calls and assignments to places are read back, and only where a return ends its block.

* `Solid`: well-formed, and an operand of every operator that is written.
* `Assembled`: what a node asks for a well-formed syntax tree, and `Composed`: without custom operators.
* `tail_toLua?`: how tightly what is written for an expression binds at its right end.
* `solid_of_assembled`, `lines_of_assembled`: the syntax tree of a tree is solid, and that of statements
  well-formed.
* `readExpression_generateExpression`: an emitted text is read as the syntax tree of its tree. -/

namespace CodeTree.Lua

open List

set_option autoImplicit false

/-- A well-formed expression that can be an operand without further parentheses. -/
structure Solid {ν : Type} (x : Exp ν) : Prop where
  wf : x.WF
  tail : UnaryOp.priority ≤ x.tail
  strength : x.strength = unlimited

/-- A node that is no method and has no custom operator, and that writes accesses only behind
expressions that take them. -/
structure Regular (node : Node) : Prop where
  notMethod : node.isMethod = false
  standard : node.customText? = none
  sites : ∀ site ∈ node.sites, site.takesSuffix = true

section Demands

variable {ν : Type} (tag : Origin → String → ν) (g : Setting)

/-- An expression is a place for an assignment if it is a variable in Lua that begins with a name. -/
def IsPlace (e : Expr) : Prop := ∀ x ∈ toLua? tag g e, x.isVariable = true ∧ x.opensParen = false

instance (e : Expr) : Decidable (IsPlace tag g e) := inferInstanceAs (Decidable (∀ _ ∈ _, _))

/-- Whether a statement is one in Lua: of the expressions calls are, and of the assignments those to
places. -/
def IsLine : Statement → Prop
  | .expression value => ∀ x ∈ toLua? tag g value, x.isCall = true
  | .assignment target _ => IsPlace tag g target
  | .declaration _ | .result _ | .block _ => True

/-- A node whose syntax tree is well-formed if those below it are. Where `methods` does not hold there are
no methods, and so no statements below an expression. -/
structure Composed (methods : Prop) (node : Node) : Prop where
  standard : node.customText? = none
  sites : ∀ site ∈ node.sites, site.takesSuffix = true
  method : node.isMethod = true → methods
  bodies : methods → ∀ body ∈ node.bodies, ReturnsLast body
  line : methods → ∀ s, node = .statement s → IsLine tag g s

/-- A node like this whose custom operators are operators of Lua that keep their operands. -/
structure Assembled (methods : Prop) (node : Node) : Prop where
  operators : node.keepsOperands g.config.target = true
  sites : ∀ site ∈ node.sites, site.takesSuffix = true
  method : node.isMethod = true → methods
  bodies : methods → ∀ body ∈ node.bodies, ReturnsLast body
  line : methods → ∀ s, node = .statement s → IsLine tag g s

end Demands

variable {ν : Type} {tag : Origin → String → ν} {g : Setting} {methods : Prop} {x y z : Exp ν}

theorem Regular.composed {node : Node} (h : Regular node) : Composed tag g False node :=
  ⟨h.standard, h.sites, fun hmethod => absurd h.notMethod (by simp [hmethod]), nofun, nofun⟩

theorem Composed.assembled {node : Node} (h : Composed tag g methods node) : Assembled tag g methods node :=
  ⟨Node.keepsOperands_of_standard h.standard, h.sites, h.method, h.bodies, h.line⟩

/-! ## Right ends -/

theorem tail_signed (negative : Bool) (hx : x.tail = unlimited) :
    (signed negative x).tail = if negative then UnaryOp.priority else unlimited := by
  cases negative with
  | false => exact hx
  | true =>
    show min UnaryOp.priority x.tail = _
    rw [hx]
    rfl

theorem tail_literalExp (target : Target) (l : Literal) : (literalExp tag target l).tail =
    if l.opening target = .minus then UnaryOp.priority else unlimited := by
  cases l with
  | string | character | boolean => rfl
  | integer value =>
    rw [literalExp, integerExp, Literal.opening]
    split
    · rfl
    · rw [tail_signed _ rfl]
      split <;> simp_all
  | float value =>
    rw [literalExp, floatExp, Literal.opening]
    split
    · rfl
    · split
      · rw [tail_signed _ rfl]
        split <;> simp_all
      · rw [tail_signed _ rfl]
        split <;> simp_all

/-- Plus and casts leave no trace. -/
theorem toLua?_core (e : Expr) : toLua? tag g e.core = toLua? tag g e := by
  fun_induction Expr.core e with
  | case1 => rfl
  | case2 operand ih =>
    rw [ih]
    simp [toLua?, unaryExp?]
  | case3 value type throwing safe ih => exact ih
  | case4 => rfl

/-- Of what is written for expressions, only negative numbers do not bind tighter than all operators at
their right end. -/
theorem tail_toLua? {e : Expr}
    (hsites : ∀ node ∈ e.rendered, ∀ site ∈ node.sites, site.takesSuffix = true)
    (hx : toLua? tag g e = some x) :
    x.tail = if e.opening g.config.target = .minus then UnaryOp.priority else unlimited := by
  cases hsuffix : e.takesSuffix with
  | true =>
    rw [Exp.tail_of_isPrefix (isPrefix_of_takesSuffix e hsites hx hsuffix), if_neg]
    rcases opening_of_takesSuffix g.config.target e hsites hsuffix with heq | heq <;> rw [heq] <;> decide
  | false =>
    rw [← toLua?_core] at hx
    rw [← opening_core]
    unfold Expr.takesSuffix at hsuffix
    split at hsuffix
    · rename_i heq
      rw [heq] at hx ⊢
      cases hx
      rfl
    · rename_i heq
      rw [heq] at hx ⊢
      cases hx
      exact tail_literalExp _ _
    iterate 3
      rename_i heq
      rw [heq] at hx ⊢
      obtain ⟨_, -, hx⟩ := Option.bind_eq_some_iff.1 hx
      cases hx
      rfl
    · rename_i heq
      rw [heq] at hx ⊢
      cases hx
      rfl
    · rename_i heq
      rw [heq] at hx ⊢
      simp only [toLua?, Option.bind_eq_bind, Option.bind_eq_some_iff, Option.some.injEq] at hx
      obtain ⟨_, -, _, -, _, -, _, -, rfl⟩ := hx
      rfl
    · cases hsuffix

/-! ## Forms -/

theorem solid_of_unlimited (h : x.WF) (htail : x.tail = unlimited) (hstrength : x.strength = unlimited) :
    Solid x :=
  ⟨h, by rw [htail]; decide, hstrength⟩

theorem solid_of_isPrefix (hprimary : x.isPrefix = true) (h : x.WF) : Solid x :=
  solid_of_unlimited h (Exp.tail_of_isPrefix hprimary) (Exp.strength_of_isPrefix hprimary)

theorem solid_name (n : ν) : Solid (.name n) := solid_of_isPrefix rfl trivial

theorem Solid.field {member : String} (h : Solid x) (hprimary : x.isPrefix = true) :
    Solid (.field x member) :=
  solid_of_isPrefix rfl ⟨hprimary, h.wf⟩

theorem Solid.call {xs : List (Exp ν)} (h : Solid x) (hprimary : x.isPrefix = true) (hxs : wfExps xs) :
    Solid (.call x xs) :=
  solid_of_isPrefix rfl ⟨hprimary, h.wf, hxs⟩

theorem Solid.negated (h : Solid x) : (Exp.unary .minus x).WF :=
  ⟨rfl, h.wf, by rw [h.strength]; decide⟩

theorem Solid.binary {op : BinaryOp} (hx : Solid x) (hy : Solid y) (hcustom : op.isCustom = false)
    (hleft : op.left ≤ UnaryOp.priority) (hright : op.right < unlimited) : (Exp.binary op x y).WF :=
  ⟨hcustom, hx.wf, hy.wf, hleft.trans hx.tail, by rwa [hy.strength]⟩

theorem Solid.right_lt_strength (h : Solid x) (op : BinaryOp) : op.right < x.strength := by
  rw [h.strength]
  exact op.right_lt

/-- Only powers bind tighter than the minus sign of a negative number. -/
theorem Solid.left_le_tail {operator : String} (h : Solid x) (hpower : operator = "^" → x.tail = unlimited) :
    (BinaryOp.ofText operator).left ≤ x.tail := by
  by_cases htext : operator = "^"
  · rw [hpower htext]
    exact BinaryOp.left_le _
  · have hleft : (BinaryOp.ofText operator).left ≤ UnaryOp.priority := by
      unfold BinaryOp.ofText
      split
      all_goals first
        | decide
        | exact absurd rfl htext
        | exact Nat.zero_le _
    exact hleft.trans h.tail

theorem Solid.paren_binary {op : BinaryOp} (hx : Solid x) (hy : Solid y) (hcustom : op.isCustom = false)
    (hleft : op.left ≤ UnaryOp.priority) (hright : op.right < unlimited) :
    Solid (.paren (.binary op x y)) :=
  solid_of_isPrefix rfl (hx.binary hy hcustom hleft hright)

theorem solid_signed (h : Solid x) (negative : Bool) : Solid (signed negative x) := by
  cases negative with
  | false => exact h
  | true => exact ⟨h.negated, le_min le_rfl h.tail, rfl⟩

theorem solid_literalExp (target : Target) (l : Literal) : Solid (literalExp tag target l) := by
  have hsimple : ∀ value, Solid (Exp.numeral value : Exp ν) :=
    fun _ => solid_of_unlimited trivial rfl rfl
  cases l with
  | string value | character value | boolean value => exact solid_of_unlimited trivial rfl rfl
  | integer value =>
    rw [literalExp, integerExp]
    split
    · exact (solid_name _).field rfl
    · exact solid_signed (hsimple _) _
  | float value =>
    rw [literalExp, floatExp]
    split
    · exact (hsimple _).paren_binary (hsimple _) rfl (by decide) (by decide)
    · split
      · exact solid_signed ((solid_name _).field rfl) _
      · exact solid_signed (hsimple _) _

theorem solid_atomExp {a : Atom} (h : atomExp? tag g a = some x) : Solid x := by
  cases a with
  | nil =>
    cases h
    exact solid_of_unlimited trivial rfl rfl
  | literal l =>
    cases h
    exact solid_literalExp _ l
  | selfReference =>
    obtain rfl : given tag "self" = x := by simpa [atomExp?] using h
    exact solid_name _
  | identifier | localVariable | typeReference =>
    obtain ⟨name, -, rfl⟩ := Option.map_eq_some_iff.1 h
    exact solid_name _
  | enumValue value =>
    simp only [atomExp?, Option.bind_eq_bind, Option.bind_eq_some_iff, Option.some.injEq] at h
    obtain ⟨type, -, name, -, rfl⟩ := h
    exact (solid_name _).field rfl
  | propertyValue | inherited | selector | default | raw => cases h

theorem solid_unaryExp {target : Target} {operator : Operator UnaryKind} {operand : Expr}
    (hoperator : (Node.expression (.unary operator operand)).keepsOperands target = true) (hx : Solid x)
    (h : unaryExp? operator x = some z) : Solid z := by
  match operator with
  | .standard .plus =>
    cases h
    exact hx
  | .standard .addressOf => exact nomatch h
  | .standard .minus =>
    cases h
    exact solid_of_isPrefix rfl hx.negated
  | .standard .not =>
    cases h
    exact solid_of_isPrefix rfl ⟨rfl, hx.wf, by rw [hx.strength]; decide⟩
  | .custom text =>
    cases h
    exact solid_of_isPrefix rfl
      ⟨(Node.keepsOperands_unary.1 hoperator).1, hx.wf, by rw [hx.strength]; decide⟩

theorem wfFields_map_item {xs : List (Exp ν)} (h : wfExps xs) : wfFields (xs.map .item) := by
  induction xs with
  | nil => trivial
  | cons x xs ih => exact ⟨h.1, ih h.2⟩

theorem solid_truncatedDivision (target : Target) : Solid (.paren (truncatedDivision tag target)) := by
  have hfmod : Solid (.call (.field (own tag "math") "fmod") [own tag "a", own tag "b"]) :=
    ((solid_name _).field rfl).call rfl ⟨trivial, trivial, trivial⟩
  have hdifference : Solid (.paren (.binary .subtract (own tag "a") _)) :=
    (solid_name _).paren_binary hfmod rfl (by decide) (by decide)
  have hquotient : ∀ op : BinaryOp, op.isCustom = false → op.left ≤ UnaryOp.priority →
      op.right < unlimited → (Exp.binary op
        (.paren (.binary .subtract (own tag "a")
          (.call (.field (own tag "math") "fmod") [own tag "a", own tag "b"]))) (own tag "b")).WF :=
    fun op hcustom hleft hright =>
      hdifference.binary (solid_name (tag .emitter "b")) hcustom hleft hright
  refine solid_of_isPrefix rfl ⟨⟨?_, trivial⟩, fun _ => rfl, Or.inr rfl, trivial⟩
  cases target
  · exact hquotient _ rfl (by decide) (by decide)
  · exact hquotient _ rfl (by decide) (by decide)
  · exact hquotient _ rfl (by decide) (by decide)

theorem solid_binaryExp {target : Target} {operator : Operator BinaryKind} {left right : Expr}
    (hoperator : (Node.expression (.binary operator left right)).keepsOperands target = true)
    (hx : Solid x) (hy : Solid y) (htail : left.opening target ≠ .minus → x.tail = unlimited)
    (h : binaryExp? tag target operator x y = some z) : Solid z := by
  cases operator with
  | custom text =>
    cases h
    obtain ⟨hlua, hpower⟩ := Node.keepsOperands_binary.1 hoperator
    exact solid_of_isPrefix rfl ⟨hlua, hx.wf, hy.wf, hx.left_le_tail fun htext => htail (hpower htext),
      hy.right_lt_strength _⟩
  | standard kind =>
    have harguments : wfExps [x, y] := ⟨hx.wf, hy.wf, trivial⟩
    rw [binaryExp?] at h
    split at h
    · cases h
      exact ((solid_name _).field rfl).call rfl harguments
    · cases kind with
      | truncatedDivision =>
        cases h
        exact (solid_truncatedDivision target).call rfl harguments
      | implies =>
        cases h
        have hnot : Solid (.paren (.unary .not x)) :=
          solid_of_isPrefix rfl ⟨rfl, hx.wf, by rw [hx.strength]; decide⟩
        exact hnot.paren_binary hy rfl (by decide) (by decide)
      | logicalXor | is | isNot | isIn | notIn => cases h
      | addition | subtraction | multiplication | division | modulus | equals | notEquals | lessThan
      | lessThanOrEquals | greaterThan | greaterThanOrEquals | logicalAnd | logicalOr | shiftLeft
      | shiftRight | bitwiseAnd | bitwiseOr | bitwiseXor =>
        cases h
        exact hx.paren_binary hy rfl (by decide) (by decide)

theorem solid_conditional {condition consequence : Exp ν} {alternative : Option (Exp ν)}
    (hcondition : Solid condition) (hconsequence : Solid consequence)
    (halternative : ∀ y ∈ alternative, Solid y) :
    Solid (conditional condition consequence alternative) := by
  have hresult : ∀ y : Exp ν, Solid y → wfStats [.result [y]] := fun y hy =>
    ⟨⟨hy.wf, trivial⟩, fun _ => rfl, Or.inr rfl, trivial⟩
  refine solid_of_isPrefix (by cases alternative <;> rfl) ?_
  cases alternative with
  | none =>
    exact ⟨rfl, ⟨⟨hcondition.wf, hresult _ hconsequence, trivial⟩, nofun, Or.inr rfl, trivial⟩, trivial⟩
  | some alternative =>
    exact ⟨rfl, ⟨⟨hcondition.wf, hresult _ hconsequence, hresult _ (halternative _ rfl)⟩, nofun,
      Or.inr rfl, trivial⟩, trivial⟩

/-! ## Accesses -/

theorem wf_guardExp (nilSafe optional : Bool) (member : String) :
    (guardExp tag nilSafe optional member).WF := by
  have hnil : Solid (Exp.nil : Exp ν) := solid_of_unlimited trivial rfl rfl
  have ht := solid_name (tag .emitter "t")
  have hisNil : (Exp.binary .equal (own tag "t") .nil).WF :=
    ht.binary hnil rfl (by decide) (by decide)
  have hhasNone : (Exp.binary .equal (.field (own tag "t") member) .nil).WF :=
    (ht.field rfl).binary hnil rfl (by decide) (by decide)
  rw [guardExp]
  split
  · refine ⟨rfl, hisNil, hhasNone, ?_, ?_⟩
    · simp [Exp.tail, BinaryOp.left, BinaryOp.right, unlimited]
    · simp [Exp.strength, BinaryOp.left, BinaryOp.right, unlimited]
  · split
    · exact hisNil
    · exact hhasNone

theorem wf_selected {isType : Bool} {member : String} {arguments : Option (List (Exp ν))}
    (hprimary : x.isPrefix = true) (hx : x.WF) (harguments : ∀ xs ∈ arguments, wfExps xs) :
    (selected x isType member arguments).WF := by
  cases arguments with
  | none => exact ⟨hprimary, hx⟩
  | some xs =>
    cases isType with
    | true => exact ⟨rfl, ⟨hprimary, hx⟩, harguments xs rfl⟩
    | false => exact ⟨hprimary, hx, harguments xs rfl⟩

theorem wf_guarded {isType nilSafe optional : Bool} {member : String}
    {arguments : Option (List (Exp ν))} (hx : x.WF) (harguments : ∀ xs ∈ arguments, wfExps xs) :
    (guarded tag x isType nilSafe optional member arguments).WF := by
  have hresult : wfStats [.result [selected (own tag "t") isType member arguments]] :=
    ⟨⟨wf_selected rfl trivial harguments, trivial⟩, fun _ => rfl, Or.inr rfl, trivial⟩
  have hguard : (guardExp tag nilSafe optional member).WF := wf_guardExp _ _ _
  have hnil : wfStats [.result [(Exp.nil : Exp ν)]] :=
    ⟨⟨trivial, trivial⟩, fun _ => rfl, Or.inr rfl, trivial⟩
  exact ⟨rfl, ⟨⟨hguard, hnil, trivial⟩, nofun, Or.inr rfl, hresult⟩, hx, trivial⟩

theorem solid_memberExp {site : Option (Bool × Exp ν)} {selection : Selection} {optional : Bool}
    {member : String} {arguments : Option (List (Exp ν))}
    (hsite : ∀ s ∈ site, s.2.isPrefix = true ∧ s.2.WF) (harguments : ∀ xs ∈ arguments, wfExps xs) :
    Solid (memberExp tag site selection optional member arguments) := by
  refine solid_of_isPrefix (isPrefix_memberExp _ _ _ _ _) ?_
  unfold memberExp
  split
  · split
    · trivial
    · exact ⟨rfl, trivial, harguments _ rfl⟩
  · rename_i isType x
    obtain ⟨hprimary, hx⟩ := hsite (isType, x) rfl
    split
    · exact wf_guarded hx harguments
    · exact wf_selected hprimary hx harguments

theorem wf_indexed {keys : List (Exp ν)} (hkeys : wfExps keys) (hx : x.WF)
    (hprimary : x.isPrefix = true) : (indexed x keys).WF := by
  induction keys generalizing x with
  | nil => exact hx
  | cons key keys ih => exact ih hkeys.2 (x := .index x key) ⟨hprimary, hx, hkeys.1⟩ rfl

/-! ## Constructions -/

inductive Assigns (tag : Origin → String → ν) : List (Stat ν) → Prop
  | nil : Assigns tag []
  | cons {property : String} {value : Exp ν} {assignments : List (Stat ν)} (hvalue : value.WF)
      (hassignments : Assigns tag assignments) : Assigns tag (initializer tag property value ++ assignments)

theorem Assigns.wfStats {assignments : List (Stat ν)} (h : Assigns tag assignments) :
    wfStats (assignments ++ [.empty, .result [own tag "o"]]) ∧
      Stat.opensParen (assignments ++ [.empty, .result [own tag "o"]]) = false := by
  induction h with
  | nil =>
    have hresult : CodeTree.Lua.wfStats [.result [own tag "o"]] :=
      ⟨⟨trivial, trivial⟩, fun _ => rfl, Or.inr rfl, trivial⟩
    exact ⟨⟨trivial, nofun, Or.inl rfl, hresult⟩, rfl⟩
  | @cons property _ _ hvalue _ ih =>
    have htarget : (Exp.field (own tag "o") property).WF := ⟨rfl, trivial⟩
    exact ⟨⟨trivial, nofun, Or.inl rfl, ⟨rfl, htarget, hvalue⟩, nofun, Or.inr ih.2, ih.1⟩, rfl⟩

theorem solid_constructExp {type constructor : String} {arguments : List (Exp ν)}
    {assignments : List (Stat ν)} (harguments : wfExps arguments) (hassignments : Assigns tag assignments) :
    Solid (constructExp tag type constructor arguments assignments) := by
  have hcreation : (Exp.call (.field (given tag type) constructor) arguments).WF :=
    ⟨rfl, ⟨rfl, trivial⟩, harguments⟩
  refine solid_of_isPrefix (isPrefix_constructExp _ _ _ _) ?_
  unfold constructExp
  dsimp only
  split
  · exact hcreation
  · obtain ⟨hbody, hopens⟩ := hassignments.wfStats
    exact ⟨rfl, ⟨⟨hcreation, trivial⟩, nofun, Or.inr hopens, hbody⟩, trivial⟩

/-! ## Lines -/

/-- Well-formed statements that can stand behind others. -/
structure Lines (ss : List (Stat ν)) : Prop where
  wf : wfStats ss
  opens : Stat.opensParen ss = false

variable {ss ts : List (Stat ν)}

theorem lines_nil : Lines ([] : List (Stat ν)) := ⟨trivial, rfl⟩

theorem lines_singleton {s : Stat ν} (h : s.WF) (hopens : Stat.opensParen [s] = false) : Lines [s] :=
  ⟨⟨h, fun _ => rfl, Or.inr rfl, trivial⟩, hopens⟩

/-- Lines can follow lines that do not return. -/
theorem Lines.append (hss : Lines ss) (hgoesOn : ∀ s ∈ ss, s.isResult = false) (hts : Lines ts) :
    Lines (ss ++ ts) := by
  have hopens : ∀ us : List (Stat ν), Stat.opensParen us = false → Stat.opensParen (us ++ ts) = false := by
    intro us hus
    cases us with
    | nil => exact hts.opens
    | cons u us => cases u <;> exact hus
  refine ⟨?_, hopens ss hss.opens⟩
  replace hss := hss.wf
  induction ss with
  | nil => exact hts.wf
  | cons s ss ih =>
    rw [List.forall_mem_cons] at hgoesOn
    obtain ⟨hs, -, hends, hwf⟩ := hss
    exact ⟨hs, fun h => absurd h (by simp [hgoesOn.1]), hends.imp_right (hopens ss), ih hgoesOn.2 hwf⟩

theorem lines_callStats (hcall : x.isCall = true) (hx : x.WF) : Lines (callStats x) := by
  have hline : (Stat.call x).WF := ⟨hcall, hx⟩
  rw [callStats]
  split
  · exact ⟨⟨trivial, nofun, Or.inl rfl, hline, fun _ => rfl, Or.inr rfl, trivial⟩, rfl⟩
  · rename_i hopens
    exact lines_singleton hline (Bool.eq_false_iff.2 hopens)

theorem lines_defaultStat {name : String} (hx : x.WF) : Lines [defaultStat tag name x] := by
  have hnil : Solid (Exp.nil : Exp ν) := solid_of_unlimited trivial rfl rfl
  have hcondition : (Exp.binary .equal (given tag name) .nil).WF :=
    (solid_name _).binary hnil rfl (by decide) (by decide)
  have hassignment : Lines [Stat.assign (given tag name) x] := lines_singleton ⟨rfl, trivial, hx⟩ rfl
  exact lines_singleton ⟨hcondition, hassignment.wf, trivial⟩ rfl

/-- What stands as a statement is a call, or raw code, which has no syntax tree. -/
theorem isCall_of_standsAlone {e : Expr} (h : standsAlone g e = true) (hx : toLua? tag g e = some x) :
    x.isCall = true := by
  cases e with
  | shared s => cases s <;> simp [standsAlone, Expr.node, Sentinel.atom] at h
  | atom a =>
    cases a with
    | raw code => cases hx
    | _ => cases h
  | call site selection arguments optional =>
    simp only [toLua?, Option.bind_eq_bind, Option.bind_eq_some_iff, Option.some.injEq] at hx
    obtain ⟨s, -, member, -, xs, -, rfl⟩ := hx
    unfold memberExp
    split
    · rfl
    · split
      · rfl
      · rename_i isType _ _
        cases isType <;> rfl
  | _ => cases h

/-! ## Trees -/

mutual

/-- The syntax tree of a tree is solid. -/
theorem solid_of_assembled : ∀ (e : Expr) {x : Exp ν}, (∀ node ∈ e.rendered, Assembled tag g methods node) →
    toLua? tag g e = some x → Solid x
  | .shared s, x, _, hx => solid_atomExp hx
  | .atom a, x, _, hx => solid_atomExp hx
  | .array elements kind, x, h, hx => by
    simp only [toLua?, Option.bind_eq_bind, Option.bind_eq_some_iff, Option.some.injEq] at hx
    obtain ⟨xs, hxs, rfl⟩ := hx
    rw [Expr.rendered, List.forall_mem_cons] at h
    exact solid_of_unlimited (wfFields_map_item (wf_toLuaList? elements h.2 hxs)) rfl rfl
  | .dictionary entries, x, h, hx => by
    simp only [toLua?, Option.bind_eq_bind, Option.bind_eq_some_iff, Option.some.injEq] at hx
    obtain ⟨fields, hfields, rfl⟩ := hx
    rw [Expr.rendered, List.forall_mem_cons] at h
    have hwf : (Exp.table fields).WF := wf_toLuaEntries? entries h.2 hfields
    exact solid_of_unlimited hwf rfl rfl
  | .tuple elements, x, h, hx => by
    simp only [toLua?, Option.bind_eq_bind, Option.bind_eq_some_iff, Option.some.injEq] at hx
    obtain ⟨xs, hxs, rfl⟩ := hx
    rw [Expr.rendered, List.forall_mem_cons] at h
    exact solid_of_unlimited (wfFields_map_item (wf_toLuaList? elements h.2 hxs)) rfl rfl
  | .unary operator operand, x, h, hx => by
    simp only [toLua?, Option.bind_eq_bind, Option.bind_eq_some_iff] at hx
    obtain ⟨y, hy, hx⟩ := hx
    rw [Expr.rendered, List.forall_mem_cons] at h
    exact solid_unaryExp h.1.operators (solid_of_assembled operand h.2 hy) hx
  | .binary operator left right, x, h, hx => by
    simp only [toLua?, Option.bind_eq_bind, Option.bind_eq_some_iff] at hx
    obtain ⟨y, hy, z, hz, hx⟩ := hx
    simp only [Expr.rendered, List.forall_mem_cons, List.forall_mem_append] at h
    exact solid_binaryExp h.1.operators (solid_of_assembled left h.2.1 hy)
      (solid_of_assembled right h.2.2 hz)
      (fun hopening => by rw [tail_toLua? (fun node hnode => (h.2.1 node hnode).sites) hy, if_neg hopening]) hx
  | .field site selection, x, h, hx => by
    simp only [toLua?, Option.bind_eq_bind, Option.bind_eq_some_iff, Option.some.injEq] at hx
    obtain ⟨s, hs, member, -, rfl⟩ := hx
    rw [Expr.rendered, List.forall_mem_cons] at h
    exact solid_memberExp (wf_toLuaSite? site h.2
      (fun e he => h.1.sites e (by simpa [Node.sites, Expr.sites] using he)) hs) nofun
  | .call site selection arguments optional, x, h, hx => by
    simp only [toLua?, Option.bind_eq_bind, Option.bind_eq_some_iff, Option.some.injEq] at hx
    obtain ⟨s, hs, member, -, xs, hxs, rfl⟩ := hx
    rw [Expr.rendered, List.forall_mem_cons] at h
    have hparts : (∀ node ∈ renderedExpr? site, Assembled tag g methods node) ∧
        ∀ node ∈ renderedArguments arguments, Assembled tag g methods node := by
      refine ⟨fun node hnode => h.2 node ?_, fun node hnode => h.2 node ?_⟩ <;>
        split <;> simp [hnode]
    have harguments := wf_toLuaArguments? arguments hparts.2 hxs
    exact solid_memberExp (wf_toLuaSite? site hparts.1
      (fun e he => h.1.sites e (by simpa [Node.sites, Expr.sites] using he)) hs)
      (by rintro _ ⟨⟩; exact harguments)
  | .property site selection indices, x, h, hx => by
    simp only [toLua?, Option.bind_eq_bind, Option.bind_eq_some_iff, Option.some.injEq] at hx
    obtain ⟨s, hs, member, -, keys, hkeys, rfl⟩ := hx
    simp only [Expr.rendered, List.forall_mem_cons, List.forall_mem_append] at h
    have hfield : Solid (memberExp tag s selection false member none) :=
      solid_memberExp (wf_toLuaSite? site h.2.1
        (fun e he => h.1.sites e (by simpa [Node.sites, Expr.sites] using he)) hs) nofun
    have hprimary : (memberExp tag s selection false member none).isPrefix = true :=
      isPrefix_memberExp _ _ _ _ _
    exact solid_of_isPrefix (isPrefix_indexed hprimary keys)
      (wf_indexed (wf_toLuaArguments? indices h.2.2 hkeys) hfield.wf hprimary)
  | .construct type constructor arguments initializers, x, h, hx => by
    simp only [toLua?, Option.bind_eq_bind, Option.bind_eq_some_iff, Option.some.injEq] at hx
    obtain ⟨_, -, _, -, xs, hxs, assignments, hassignments, rfl⟩ := hx
    simp only [Expr.rendered, List.forall_mem_cons, List.forall_mem_append] at h
    exact solid_constructExp (wf_toLuaArguments? arguments h.2.1 hxs)
      (assigns_toLuaInitializers? initializers h.2.2 hassignments)
  | .allocate _ _ _ _, x, _, hx => by
    cases hx
    exact solid_of_unlimited trivial rfl rfl
  | .element array indices, x, h, hx => by
    simp only [toLua?, Option.bind_eq_bind, Option.bind_eq_some_iff, Option.some.injEq] at hx
    obtain ⟨y, hy, keys, hkeys, rfl⟩ := hx
    simp only [Expr.rendered, List.forall_mem_cons, List.forall_mem_append] at h
    have hprimary := isPrefix_of_takesSuffix array (fun node hnode => (h.2.1 node hnode).sites) hy
      (h.1.sites _ (by simp [Node.sites, Expr.sites]))
    exact solid_of_isPrefix (isPrefix_indexed hprimary keys)
      (wf_indexed (wf_toLuaList? indices h.2.2 hkeys) (solid_of_assembled array h.2.1 hy).wf hprimary)
  | .wrapped .parentheses inner, x, h, hx => by
    simp only [toLua?, Option.bind_eq_bind, Option.bind_eq_some_iff, Option.some.injEq] at hx
    obtain ⟨y, hy, rfl⟩ := hx
    rw [Expr.rendered, List.forall_mem_cons] at h
    exact solid_of_isPrefix rfl (solid_of_assembled inner h.2 hy).wf
  | .wrapped .typeOf inner, x, h, hx => by
    simp only [toLua?, Option.bind_eq_bind, Option.bind_eq_some_iff, Option.some.injEq] at hx
    obtain ⟨y, hy, rfl⟩ := hx
    rw [Expr.rendered, List.forall_mem_cons] at h
    exact (solid_name _).call rfl ⟨(solid_of_assembled inner h.2 hy).wf, trivial⟩
  | .wrapped .sizeOf inner, x, _, hx => nomatch hx
  | .wrapped .dereference inner, x, _, hx => nomatch hx
  | .conditional condition consequence none, x, h, hx => by
    simp only [toLua?, Option.bind_eq_bind, Option.bind_eq_some_iff, Option.some.injEq] at hx
    obtain ⟨y, hy, z, hz, rfl⟩ := hx
    simp only [Expr.rendered, List.forall_mem_cons, List.forall_mem_append] at h
    exact solid_conditional (solid_of_assembled condition h.2.1.1 hy) (solid_of_assembled consequence h.2.1.2 hz)
      nofun
  | .conditional condition consequence (some alternative), x, h, hx => by
    simp only [toLua?, Option.bind_eq_bind, Option.bind_eq_some_iff, Option.some.injEq] at hx
    obtain ⟨y, hy, z, hz, a, ha, rfl⟩ := hx
    simp only [Expr.rendered, renderedExpr?, List.forall_mem_cons, List.forall_mem_append] at h
    have halternative := solid_of_assembled alternative h.2.2 ha
    exact solid_conditional (solid_of_assembled condition h.2.1.1 hy) (solid_of_assembled consequence h.2.1.2 hz)
      (by rintro _ ⟨⟩; exact halternative)
  | .cast value type throwing safe, x, h, hx => by
    rw [Expr.rendered, List.forall_mem_cons] at h
    exact solid_of_assembled value h.2 hx
  | .assigned value inverted, x, h, hx => by
    simp only [toLua?, Option.bind_eq_bind, Option.bind_eq_some_iff, Option.some.injEq] at hx
    obtain ⟨y, hy, rfl⟩ := hx
    rw [Expr.rendered, List.forall_mem_cons] at h
    have hnil : Solid (Exp.nil : Exp ν) := solid_of_unlimited trivial rfl rfl
    cases inverted with
    | true => exact (solid_of_assembled value h.2 hy).paren_binary hnil rfl (by decide) (by decide)
    | false => exact (solid_of_assembled value h.2 hy).paren_binary hnil rfl (by decide) (by decide)
  | .method _ parameters _ body locals, x, h, hx => by
    simp only [toLua?, Option.bind_eq_bind, Option.bind_eq_some_iff, Option.some.injEq] at hx
    obtain ⟨names, -, defaults, hdefaults, declared, hdeclared, statements, hstatements, rfl⟩ := hx
    simp only [Expr.rendered, List.forall_mem_cons, List.forall_mem_append] at h
    have hmethods : methods := h.1.method rfl
    have hlast : ReturnsLast body := h.1.bodies hmethods body (by simp [Node.bodies])
    have hbody := lines_of_assembled body hmethods hlast h.2.2 hstatements
    have hlocals := (lines_toLuaLocals? locals h.2.1.2 hdeclared).append
      (goesOn_toLuaLocals? hdeclared) hbody
    have hlines := (lines_toLuaDefaults? parameters h.2.1.1 hdefaults).append
      (goesOn_toLuaDefaults? hdefaults) hlocals
    rw [← List.append_assoc] at hlines
    exact solid_of_unlimited hlines.wf rfl rfl
  | .anonymousType _ _, x, _, hx => nomatch hx

theorem wf_toLuaSite? : ∀ (site : Option Expr) {s : Option (Bool × Exp ν)},
    (∀ node ∈ renderedExpr? site, Assembled tag g methods node) → (∀ e ∈ site, e.takesSuffix = true) →
      toLuaSite? tag g site = some s → ∀ p ∈ s, p.2.isPrefix = true ∧ p.2.WF
  | none, s, _, _, hs => by
    cases hs
    nofun
  | some site, s, h, hsuffix, hs => by
    simp only [toLuaSite?, Option.bind_eq_bind, Option.bind_eq_some_iff, Option.some.injEq] at hs
    obtain ⟨x, hx, rfl⟩ := hs
    rintro _ ⟨⟩
    have hprimary := isPrefix_of_takesSuffix site (fun node hnode => (h node hnode).sites) hx
      (hsuffix site rfl)
    exact ⟨hprimary, (solid_of_assembled site h hx).wf⟩

theorem wf_toLuaList? : ∀ (es : List Expr) {xs : List (Exp ν)},
    (∀ node ∈ renderedExprs es, Assembled tag g methods node) → toLuaList? tag g es = some xs → wfExps xs
  | [], xs, _, hxs => by
    cases hxs
    trivial
  | e :: es, xs, h, hxs => by
    simp only [toLuaList?, Option.bind_eq_bind, Option.bind_eq_some_iff, Option.some.injEq] at hxs
    obtain ⟨x, hx, xs, hxs, rfl⟩ := hxs
    rw [renderedExprs, List.forall_mem_append] at h
    exact ⟨(solid_of_assembled e h.1 hx).wf, wf_toLuaList? es h.2 hxs⟩

theorem wf_toLuaEntries? : ∀ (entries : List (Expr × Expr)) {fs : List (TableField ν)},
    (∀ node ∈ renderedEntries entries, Assembled tag g methods node) → toLuaEntries? tag g entries = some fs →
      wfFields fs
  | [], fs, _, hfs => by
    cases hfs
    trivial
  | (key, value) :: entries, fs, h, hfs => by
    simp only [toLuaEntries?, Option.bind_eq_bind, Option.bind_eq_some_iff, Option.some.injEq] at hfs
    obtain ⟨x, hx, y, hy, fs, hfs, rfl⟩ := hfs
    rw [renderedEntries, List.forall_mem_append, List.forall_mem_append] at h
    exact ⟨⟨(solid_of_assembled key h.1.1 hx).wf, (solid_of_assembled value h.1.2 hy).wf⟩,
      wf_toLuaEntries? entries h.2 hfs⟩

theorem wf_toLuaArguments? : ∀ (arguments : List Argument) {xs : List (Exp ν)},
    (∀ node ∈ renderedArguments arguments, Assembled tag g methods node) → toLuaArguments? tag g arguments = some xs →
      wfExps xs
  | [], xs, _, hxs => by
    cases hxs
    trivial
  | ⟨name, value, passing⟩ :: arguments, xs, h, hxs => by
    simp only [toLuaArguments?, Option.bind_eq_bind, Option.bind_eq_some_iff, Option.some.injEq] at hxs
    obtain ⟨x, hx, xs, hxs, rfl⟩ := hxs
    rw [renderedArguments, List.forall_mem_append] at h
    exact ⟨(solid_of_assembled value h.1 hx).wf, wf_toLuaArguments? arguments h.2 hxs⟩

theorem assigns_toLuaInitializers? : ∀ (initializers : List Argument) {ss : List (Stat ν)},
    (∀ node ∈ renderedArguments initializers, Assembled tag g methods node) →
      toLuaInitializers? tag g initializers = some ss → Assigns tag ss
  | [], ss, _, hss => by
    cases hss
    exact .nil
  | ⟨name, value, passing⟩ :: initializers, ss, h, hss => by
    simp only [toLuaInitializers?, Option.bind_eq_bind, Option.bind_eq_some_iff,
      Option.some.injEq] at hss
    obtain ⟨_, -, property, -, x, hx, ss, hss, rfl⟩ := hss
    rw [renderedArguments, List.forall_mem_append] at h
    exact .cons (solid_of_assembled value h.1 hx).wf (assigns_toLuaInitializers? initializers h.2 hss)

theorem lines_toLuaDefaults? : ∀ (parameters : List Parameter) {ss : List (Stat ν)},
    (∀ node ∈ renderedDefaults parameters, Assembled tag g methods node) →
      toLuaDefaults? tag g parameters = some ss → Lines ss
  | [], ss, _, hss => by
    cases hss
    exact lines_nil
  | ⟨_, _, _, none⟩ :: parameters, ss, h, hss => lines_toLuaDefaults? parameters h hss
  | ⟨_, _, _, some value⟩ :: parameters, ss, h, hss => by
    simp only [toLuaDefaults?, Option.bind_eq_bind, Option.bind_eq_some_iff, Option.some.injEq] at hss
    obtain ⟨name, -, x, hx, ss, hss, rfl⟩ := hss
    rw [renderedDefaults, renderedExpr?, List.forall_mem_append] at h
    have hdefault : Lines [defaultStat tag name x] := lines_defaultStat (solid_of_assembled value h.1 hx).wf
    exact hdefault.append (List.forall_mem_singleton.2 rfl) (lines_toLuaDefaults? parameters h.2 hss)

theorem lines_toLuaLocal? : ∀ (declared : Declaration) {s : Stat ν},
    (∀ node ∈ renderedExpr? declared.value, Assembled tag g methods node) →
      toLuaLocal? tag g declared = some s → Lines [s]
  | ⟨_, _, none, _⟩, s, _, hs => by
    simp only [toLuaLocal?, Option.bind_eq_bind, Option.bind_eq_some_iff, Option.some.injEq] at hs
    obtain ⟨_, -, rfl⟩ := hs
    exact lines_singleton trivial rfl
  | ⟨_, _, some value, _⟩, s, h, hs => by
    simp only [toLuaLocal?, Option.bind_eq_bind, Option.bind_eq_some_iff, Option.some.injEq] at hs
    obtain ⟨_, -, x, hx, rfl⟩ := hs
    exact lines_singleton ⟨(solid_of_assembled value h hx).wf, trivial⟩ rfl

theorem lines_toLuaLocalList? : ∀ (locals : List Declaration) {ss : List (Stat ν)},
    (∀ node ∈ renderedLocals locals, Assembled tag g methods node) →
      toLuaLocalList? tag g locals = some ss → Lines ss
  | [], ss, _, hss => by
    cases hss
    exact lines_nil
  | ⟨name, type, value, constant⟩ :: locals, ss, h, hss => by
    simp only [toLuaLocalList?, Option.bind_eq_bind, Option.bind_eq_some_iff, Option.some.injEq] at hss
    obtain ⟨s, hs, ss, hss, rfl⟩ := hss
    rw [renderedLocals, List.forall_mem_append] at h
    have hdeclared := lines_toLuaLocal? ⟨name, type, value, constant⟩ h.1 hs
    exact hdeclared.append (List.forall_mem_singleton.2 (isResult_toLuaLocal? hs))
      (lines_toLuaLocalList? locals h.2 hss)

theorem lines_toLuaLocals? : ∀ (locals : Option (List Declaration)) {ss : List (Stat ν)},
    (∀ node ∈ renderedLocals? locals, Assembled tag g methods node) →
      toLuaLocals? tag g locals = some ss → Lines ss
  | none, ss, _, hss => by
    cases hss
    exact lines_nil
  | some locals, ss, h, hss => lines_toLuaLocalList? locals h hss

theorem lines_toLuaStatement? : ∀ (s : Statement) {ss : List (Stat ν)}, methods →
    (∀ node ∈ s.rendered, Assembled tag g methods node) → toLuaStatement? tag g s = some ss → Lines ss
  | .expression value, ss, hmethods, h, hss => by
    simp only [toLuaStatement?, Option.bind_eq_bind, Option.bind_eq_some_iff, Option.some.injEq] at hss
    obtain ⟨x, hx, rfl⟩ := hss
    rw [Statement.rendered, List.forall_mem_cons] at h
    have hwf := (solid_of_assembled value h.2 hx).wf
    exact lines_callStats (h.1.line hmethods _ rfl x hx) hwf
  | .declaration ⟨name, type, value, constant⟩, ss, _, h, hss => by
    simp only [toLuaStatement?, Option.bind_eq_bind, Option.bind_eq_some_iff, Option.some.injEq] at hss
    obtain ⟨s, hs, rfl⟩ := hss
    rw [Statement.rendered, List.forall_mem_cons] at h
    exact lines_toLuaLocal? ⟨name, type, value, constant⟩ h.2 hs
  | .assignment target value, ss, hmethods, h, hss => by
    simp only [toLuaStatement?, Option.bind_eq_bind, Option.bind_eq_some_iff, Option.some.injEq] at hss
    obtain ⟨x, hx, y, hy, rfl⟩ := hss
    rw [Statement.rendered, List.forall_mem_cons, List.forall_mem_append] at h
    obtain ⟨hvariable, hopens⟩ := h.1.line hmethods _ rfl x hx
    exact lines_singleton
      ⟨hvariable, (solid_of_assembled target h.2.1 hx).wf, (solid_of_assembled value h.2.2 hy).wf⟩ hopens
  | .result none, ss, _, _, hss => by
    cases hss
    exact lines_singleton trivial rfl
  | .result (some value), ss, _, h, hss => by
    simp only [toLuaStatement?, Option.bind_eq_bind, Option.bind_eq_some_iff, Option.some.injEq] at hss
    obtain ⟨x, hx, rfl⟩ := hss
    rw [Statement.rendered, List.forall_mem_cons] at h
    exact lines_singleton ⟨(solid_of_assembled value h.2 hx).wf, trivial⟩ rfl
  | .block body, ss, hmethods, h, hss => by
    simp only [toLuaStatement?, Option.bind_eq_bind, Option.bind_eq_some_iff, Option.some.injEq] at hss
    obtain ⟨ts, hts, rfl⟩ := hss
    rw [Statement.rendered, List.forall_mem_cons] at h
    have hlast : ReturnsLast body := h.1.bodies hmethods body (by simp [Node.bodies])
    exact lines_singleton (lines_of_assembled body hmethods hlast h.2 hts).wf rfl

/-- The statements of a block are well-formed in Lua, if only the last one returns. -/
theorem lines_of_assembled : ∀ (statements : List Statement) {ss : List (Stat ν)}, methods →
    ReturnsLast statements → (∀ node ∈ renderedStatements statements, Assembled tag g methods node) →
      toLuaStatements? tag g statements = some ss → Lines ss
  | [], ss, _, _, _, hss => by
    cases hss
    exact lines_nil
  | s :: statements, ss, hmethods, hlast, h, hss => by
    simp only [toLuaStatements?, Option.bind_eq_bind, Option.bind_eq_some_iff, Option.some.injEq] at hss
    obtain ⟨xs, hxs, ys, hys, rfl⟩ := hss
    rw [returnsLast_cons] at hlast
    rw [renderedStatements, List.forall_mem_append] at h
    have hline := lines_toLuaStatement? s hmethods h.1 hxs
    cases hresult : s.isResult with
    | true =>
      obtain rfl : ys = [] := (toLuaStatements?_eq_nil hys).2 (hlast.1 hresult)
      rwa [List.append_nil]
    | false =>
      have hgoesOn : ∀ x ∈ xs, x.isResult = false := by
        simpa [hresult] using (isResult_toLuaStatement? hxs).2
      exact hline.append hgoesOn (lines_of_assembled statements hmethods hlast.2 h.2 hys)

end

theorem solid_toLua? (e : Expr) (h : ∀ node ∈ e.rendered, Composed tag g methods node)
    (hx : toLua? tag g e = some x) : Solid x :=
  solid_of_assembled e (fun node hnode => (h node hnode).assembled) hx

theorem lines_toLuaStatements? (statements : List Statement) {ss : List (Stat ν)} (hmethods : methods)
    (hlast : ReturnsLast statements) (h : ∀ node ∈ renderedStatements statements, Composed tag g methods node)
    (hss : toLuaStatements? tag g statements = some ss) : Lines ss :=
  lines_of_assembled statements hmethods hlast (fun node hnode => (h node hnode).assembled) hss

/-! ## The generator -/

theorem lex_of_written {text : ν → String} {w : List Char} (h : Written text w x) :
    lex w = x.tokens text := by
  have hlex := h.spells [] nofun
  rwa [List.append_nil, show lex [] = [] from rfl, List.append_nil] at hlex

/-- The text of an expression whose nodes are readable is read as its syntax tree. -/
theorem readExpression_of_assembled {e : Expr} {n : Nat} {w : List Char}
    (hreadable : ∀ node ∈ e.rendered, Readable g node)
    (hassembled : ∀ node ∈ e.rendered, Assembled (fun _ name => name) g methods node)
    (hw : Yields (emitExpr g e) n () w) :
    ∃ x, toLua? (fun _ name => name) g e = some x ∧ Solid x ∧
      readExpression (String.ofList w) = some x := by
  obtain ⟨x, hx, hwritten⟩ : ∃ x, toLua? (fun _ name => name) g e = some x ∧ Written id w x :=
    written_of_readable (fun _ _ => rfl) e hreadable hw
  have hsolid := solid_of_assembled e hassembled hx
  have hparse : parseExp 0 (x.tokens id ++ []) = some (x, []) := parseExp_tokens hsolid.wf (by rintro _ ⟨⟩)
  rw [List.append_nil, ← lex_of_written hwritten] at hparse
  exact ⟨x, hx, hsolid, by rw [readExpression, String.toList_ofList, hparse]⟩

theorem readExpression_of_composed {e : Expr} {n : Nat} {w : List Char}
    (hspellable : ∀ node ∈ e.rendered, Spellable g node)
    (hcomposed : ∀ node ∈ e.rendered, Composed (fun _ name => name) g methods node)
    (hw : Yields (emitExpr g e) n () w) :
    ∃ x, toLua? (fun _ name => name) g e = some x ∧ readExpression (String.ofList w) = some x := by
  obtain ⟨x, hx, -, hread⟩ := readExpression_of_assembled
    (fun node hnode => (hspellable node hnode).readable)
    (fun node hnode => (hcomposed node hnode).assembled) hw
  exact ⟨x, hx, hread⟩

theorem readExpression_of_yields {e : Expr} {text : String}
    (hspellable : ∀ node ∈ e.rendered, Spellable g node) (hregular : ∀ node ∈ e.rendered, Regular node)
    (hw : Yields (emitExpr g e) 0 () text.toList) :
    ∃ x, toLua? (fun _ name => name) g e = some x ∧ readExpression text = some x := by
  have hread := readExpression_of_composed hspellable (fun node hnode => (hregular node hnode).composed) hw
  rwa [String.ofList_toList] at hread

/-- An emitted text is read by the grammar of Lua as the syntax tree of its tree. -/
theorem readExpression_generateExpression {names : NameTable} {config : Config} {e : Expr}
    {text : String} (haccepted : ((Generator.new names config).generateExpression e).1 = .ok text)
    (hraw : ∀ node ∈ e.rendered, node.isRaw = false)
    (hmethods : ∀ node ∈ e.rendered, node.isMethod = false)
    (hoperators : ∀ node ∈ e.rendered, node.customText? = none)
    (hnames : ∀ node ∈ e.rendered, ∀ s ∈ node.symbols, ∀ name ∈ names.resolve s, isName name = true)
    (hsites : ∀ node ∈ e.rendered, ∀ site ∈ node.sites, site.takesSuffix = true) :
    ∃ x, toLua? (fun _ name => name) ⟨names, config⟩ e = some x ∧ readExpression text = some x := by
  have hspellable : ∀ node ∈ e.rendered, Spellable ⟨names, config⟩ node := fun node hnode =>
    ⟨hraw node hnode, hoperators node hnode, hnames node hnode, hsites node hnode⟩
  have hregular : ∀ node ∈ e.rendered, Regular node := fun node hnode =>
    ⟨hmethods node hnode, hoperators node hnode, hsites node hnode⟩
  exact readExpression_of_yields hspellable hregular (generateExpression_eq_ok.1 haccepted)

/-- An element of the result of a guarded call, less the opposite of a negative number. -/
theorem readExpression_element_of_guarded_call :
    ∃ x, toLua? (fun _ name => name) ⟨⟨["x", "f"]⟩, {}⟩
        (.binary (.standard .subtraction)
          (.element (.call (some (.identifier ⟨0⟩)) ⟨⟨1⟩, true, false⟩ [] false)
            [.literal (.string "k")])
          (.unary (.standard .minus) (.literal (.integer (-5))))) = some x ∧
      readExpression
        "((function(t) if t == nil then return nil end return t:f() end)(x)[\"k\"] - (- -5))" = some x :=
  @readExpression_generateExpression ⟨["x", "f"]⟩ {} _ _ rfl (by decide) (by decide) (by decide)
    (by decide) (by decide)

end CodeTree.Lua
