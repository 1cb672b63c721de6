import CodeTree.Proofs.Meaning.Evaluation
import CodeTree.Proofs.Reading.Roundtrip

/-! # Emitted expressions keep their value

A well-typed expression of integers and truth values can be written where Lua has integers, and the text
that is written, read by the grammar of Lua and evaluated, has the value of the expression, or fails to
divide where the expression does. Its names must be names that are not reserved, and none of them may be
`math`: the emitter takes `math.mininteger` and `math.fmod` from there. The parameters of the function
that divides catch no name, because both operands are its arguments.

* `floorDivide_sub_truncatedRemainder`: the division that is written goes toward zero.
* `EvaluatesTo`: the result of a syntax tree.
* `evaluatesTo_toLua?`: the syntax tree of a well-typed expression has its value.
* `evaluates_generateExpression`: so does the text. -/

namespace CodeTree.Lua

set_option autoImplicit false

/-! ## Numbers -/

theorem truncatedRemainder_eq (a b : Int64) : truncatedRemainder a b = a % b := by
  rw [truncatedRemainder, ← Int64.toInt_mod, Int64.ofInt_toInt]

/-- What is left of a number without its remainder is not larger than the number, so it does not wrap
around. -/
theorem toInt_sub_mod (a b : Int64) : (a - a % b).toInt = b.toInt * a.toInt.tdiv b.toInt := by
  have hdifference : a.toInt - a.toInt.tmod b.toInt = b.toInt * a.toInt.tdiv b.toInt := by
    rw [Int.tmod_def]
    omega
  have hbound : (a.toInt - a.toInt.tmod b.toInt).natAbs ≤ a.toInt.natAbs := by
    rw [hdifference, mul_comm, Int.natAbs_mul, Int.natAbs_tdiv]
    exact Nat.div_mul_le_self _ _
  have hremainder : (a.toInt.tmod b.toInt).natAbs ≤ a.toInt.natAbs := by
    rw [Int.natAbs_tmod]
    exact Nat.mod_le _ _
  have hlower := a.le_toInt
  have hupper := a.toInt_lt
  rw [Int64.toInt_sub, Int64.toInt_mod, Int.bmod_eq_of_le, hdifference] <;> omega

theorem floorDivide_sub_truncatedRemainder {a b : Int64} (hb : b ≠ 0) :
    floorDivide (a - truncatedRemainder a b) b = a / b := by
  have hzero : b.toInt ≠ 0 := fun h => hb (Int64.toInt_inj.1 h)
  rw [truncatedRemainder_eq, floorDivide, toInt_sub_mod, Int.mul_fdiv_cancel_left _ hzero,
    ← Int64.toInt_inj, Int64.toInt_ofInt, Int64.toInt_div]

theorem numeralValue?_toString {n : Nat} (h : n < 2 ^ 63) :
    numeralValue? (toString n) = some (Int64.ofNat n) := by
  have hdigits : (Nat.toDigits 10 n).all Char.isDigit = true :=
    List.all_eq_true.2 (isDigits_toDigits n).isDigit
  rw [numeralValue?, Nat.toString_eq_ofList_toDigits, String.toList_ofList, if_pos hdigits,
    Nat.ofDigitChars_ten_toDigits]
  exact if_pos h

theorem natAbs_lt_of_ne_minValue {value : Int64} (h : value ≠ Int64.minValue) :
    value.toInt.natAbs < 2 ^ 63 := by
  have hne : value.toInt ≠ -2 ^ 63 := fun hvalue => h (Int64.toInt_inj.1 hvalue)
  have hlower := value.le_toInt
  have hupper := value.toInt_lt
  omega

theorem neg_ofNat_natAbs {value : Int64} (h : value ≠ Int64.minValue) (hnegative : value.toInt < 0) :
    -Int64.ofNat value.toInt.natAbs = value := by
  rw [← Int64.toInt_inj, Int64.toInt_neg_ofNat_of_le (natAbs_lt_of_ne_minValue h).le]
  omega

theorem ofNat_natAbs {value : Int64} (h : value ≠ Int64.minValue) (hnegative : ¬ value.toInt < 0) :
    Int64.ofNat value.toInt.natAbs = value := by
  rw [← Int64.toInt_inj, Int64.toInt_ofNat_of_lt (natAbs_lt_of_ne_minValue h)]
  omega

/-! ## Results -/

def Run.ofResult : Except Fault Scalar → Run Value
  | .ok x => pure (.ofScalar x)
  | .error fault => throw fault

/-- A syntax tree has a result in the scope of some values, wherever calls may be nested deep enough. -/
def EvaluatesTo (values : String → Scalar) (x : Exp String) (result : Except Fault Scalar) : Prop :=
  ∃ least, ∀ depth, least ≤ depth → evalExp (apply depth) (globals values) x = Run.ofResult result

theorem Run.ofResult_injective : Function.Injective Run.ofResult := by
  intro r s h
  match r, s with
  | .ok (.integer _), .ok (.integer _) | .ok (.boolean _), .ok (.boolean _) | .error _, .error _ =>
    cases h
    rfl
  | .ok (.integer _), .ok (.boolean _) | .ok (.boolean _), .ok (.integer _) | .ok _, .error _
  | .error _, .ok _ => cases h

/-- A syntax tree has one result: all depths that are large enough agree. -/
theorem EvaluatesTo.unique {values : String → Scalar} {x : Exp String} {r s : Except Fault Scalar}
    (hr : EvaluatesTo values x r) (hs : EvaluatesTo values x s) : r = s := by
  obtain ⟨n, hn⟩ := hr
  obtain ⟨k, hk⟩ := hs
  have hresult := (hn (max n k) (Nat.le_max_left n k)).symm.trans (hk (max n k) (Nat.le_max_right n k))
  exact Run.ofResult_injective hresult

/-- Evaluations with the same results are followed by the same evaluations. -/
theorem Run.ofResult_bind {τ : ScalarType} {result : Except Fault Scalar}
    {next : Scalar → Except Fault Scalar} {k : Value → Run Value} (h : Yielding τ result)
    (hnext : ∀ x, x.type = τ → k (.ofScalar x) = ofResult (next x)) :
    ofResult result >>= k = ofResult (result >>= next) := by
  rcases h with ⟨x, rfl, hx⟩ | rfl
  · exact hnext x hx
  · rfl

/-! ## Operations -/

theorem UnaryOp.apply_ofScalar {operator : UnaryKind} {op : UnaryOp} {type : ScalarType} {x : Scalar}
    (hop : operator = .minus ∧ op = .minus ∨ operator = .not ∧ op = .not)
    (htype : operator.type? = some type) (hx : x.type = type) :
    op.apply (.ofScalar x) = Run.ofResult (operator.evaluate x) := by
  rcases hop with ⟨rfl, rfl⟩ | ⟨rfl, rfl⟩
  · cases htype
    obtain ⟨a, rfl⟩ := Scalar.exists_integer hx
    rfl
  · cases htype
    obtain ⟨b, rfl⟩ := Scalar.exists_boolean hx
    cases b <;> rfl

theorem binaryOp?_ne {kind : BinaryKind} {op : BinaryOp} (hop : binaryOp? kind = some op)
    (hstrict : kind.IsStrict) : op ≠ .and ∧ op ≠ .or := by
  constructor
  · rintro rfl
    exact hstrict.1 (by cases kind <;> first | rfl | exact nomatch hop)
  · rintro rfl
    exact hstrict.2.1 (by cases kind <;> first | rfl | exact nomatch hop)

theorem BinaryOp.apply_ofScalar {kind : BinaryKind} {op : BinaryOp} {operands type : ScalarType}
    {x y : Scalar} (hop : binaryOp? kind = some op) (hkind : kind.Takes operands type)
    (hx : x.type = operands) (hy : y.type = operands) (hstrict : kind.IsStrict) :
    op.apply (.ofScalar x) (.ofScalar y) = Run.ofResult (kind.evaluate x y) := by
  cases kind with
  | addition | subtraction | multiplication | bitwiseAnd | bitwiseOr | bitwiseXor | lessThan
  | lessThanOrEquals | greaterThan | greaterThanOrEquals =>
    cases hop
    obtain ⟨rfl, rfl⟩ := hkind
    obtain ⟨a, rfl⟩ := Scalar.exists_integer hx
    obtain ⟨b, rfl⟩ := Scalar.exists_integer hy
    rfl
  | equals | notEquals =>
    cases hop
    cases operands with
    | integer =>
      obtain ⟨a, rfl⟩ := Scalar.exists_integer hx
      obtain ⟨b, rfl⟩ := Scalar.exists_integer hy
      simp [apply, Value.ofScalar, Value.equals, BinaryKind.evaluate, Run.ofResult]
    | boolean =>
      obtain ⟨a, rfl⟩ := Scalar.exists_boolean hx
      obtain ⟨b, rfl⟩ := Scalar.exists_boolean hy
      simp [apply, Value.ofScalar, Value.equals, BinaryKind.evaluate, Run.ofResult]
  | logicalAnd => exact absurd rfl hstrict.1
  | logicalOr => exact absurd rfl hstrict.2.1
  | implies => exact absurd rfl hstrict.2.2
  | truncatedDivision => exact nomatch hop
  | division | modulus | logicalXor | shiftLeft | shiftRight | is | isNot | isIn | notIn =>
    exact hkind.elim

/-! ## Forms -/

variable {call : Value → List Value → Run Value} {scope : String → Value}

theorem evalExp_integerExp {target : Target} (hintegers : target.hasIntegers = true)
    (hmath : scope "math" = .math) (value : Int64) :
    evalExp call scope (integerExp (fun _ name => name) target value) = pure (.integer value) := by
  unfold integerExp
  split
  · rename_i hsmallest
    rw [own, evalExp, evalExp, hmath, pure_bind, hsmallest.1]
    rfl
  · rename_i hother
    have hvalue : value ≠ Int64.minValue := fun h => hother ⟨h, hintegers⟩
    have hnumeral := numeralValue?_toString (natAbs_lt_of_ne_minValue hvalue)
    by_cases hnegative : value.toInt < 0
    · rw [decide_eq_true hnegative, signed, if_pos rfl, evalExp, evalExp_numeral hnumeral, pure_bind,
        UnaryOp.apply, neg_ofNat_natAbs hvalue hnegative]
    · rw [decide_eq_false hnegative, signed, if_neg Bool.false_ne_true, evalExp_numeral hnumeral,
        ofNat_natAbs hvalue hnegative]

/-- The function that divides, called with two integers. The remainder is a call inside of it. -/
theorem apply_truncatedDivision {target : Target} (hintegers : target.hasIntegers = true)
    (hmath : scope "math" = .math) (depth : Nat) (a b : Int64) :
    (evalExp call scope (truncatedDivision (fun _ name => name) target) >>= fun f =>
      apply (depth + 2) f [.integer a, .integer b]) =
      Run.ofResult (BinaryKind.truncatedDivision.evaluate (.integer a) (.integer b)) := by
  have ha : bindAll scope ["a", "b"] [.integer a, .integer b] "a" = .integer a := rfl
  have hb : bindAll scope ["a", "b"] [.integer a, .integer b] "b" = .integer b := rfl
  have hscope : bindAll scope ["a", "b"] [.integer a, .integer b] "math" = .math := hmath
  have hfmod : Value.math.member "fmod" = pure .fmod := rfl
  rw [truncatedDivision, evalExp, pure_bind, apply, evalStats_result, hintegers, if_pos rfl,
    evalExp_binary .floorDivide (by decide) (by decide), evalExp,
    evalExp_binary .subtract (by decide) (by decide)]
  simp only [own, evalExp, evalExps, ha, hb, hscope, hfmod, pure_bind, apply]
  by_cases hzero : b = 0
  · simp only [BinaryKind.evaluate, if_pos hzero]
    rfl
  · simp only [BinaryKind.evaluate, if_neg hzero, pure_bind, BinaryOp.apply,
      floorDivide_sub_truncatedRemainder hzero]
    rfl

theorem evalExp_divided (target : Target) (x y : Exp String) :
    evalExp call scope (.call (.paren (truncatedDivision (fun _ name => name) target)) [x, y]) =
      evalExp call scope x >>= fun v => evalExp call scope y >>= fun w =>
        evalExp call scope (truncatedDivision (fun _ name => name) target) >>= fun f =>
          call f [v, w] := by
  simp only [truncatedDivision, evalExp, evalExps, pure_bind, bind_assoc]

/-- The branches are evaluated inside of a call. -/
theorem evalExp_conditional (depth : Nat) (condition consequence alternative : Exp String) :
    evalExp (apply (depth + 1)) scope (conditional condition consequence (some alternative)) =
      evalExp (apply depth) scope condition >>= fun v =>
        if v.isTrue then evalExp (apply depth) scope consequence
        else evalExp (apply depth) scope alternative := by
  rw [conditional, evalExp, evalExp, evalExp, pure_bind, evalExps, pure_bind, apply,
    evalStats_conditional, bind_assoc, bindAll]
  refine bind_congr fun v => ?_
  split <;> simp [evalStats_result]

/-! ## Trees -/

section Trees

variable {g : Setting} {types : String → ScalarType} {values : String → Scalar}

theorem globals_of_ne {name : String} (h : name ≠ "math") :
    globals values name = .ofScalar (values name) :=
  if_neg h

theorem hasIntegers_of_ne {target : Target} (h : target ≠ .luaJIT) : target.hasIntegers = true :=
  decide_eq_true h

theorem bitName?_of_ne {target : Target} (h : target ≠ .luaJIT) (kind : BinaryKind) :
    bitName? target kind = none :=
  if_pos (decide_eq_true h)

theorem evalExp_name_of_resolve {call : Value → List Value → Run Value} {s : Symbol} {name : String}
    {x : Exp String} (hname : g.names.resolve s = some name)
    (hmath : ∀ n ∈ g.names.resolve s, n ≠ "math")
    (hx : (g.names.resolve s).map (given fun _ name => name) = some x) :
    evalExp call (globals values) x = Run.ofResult (evaluateName g.names values s) := by
  rw [hname, Option.map_some, Option.some.injEq] at hx
  rw [← hx, given, evalExp, globals_of_ne (hmath name hname), evaluateName, hname]
  rfl

theorem evalExp_unaryExp {call : Value → List Value → Run Value} {kind : UnaryKind} {operand : Expr}
    {type : ScalarType} {x z : Exp String} (hkind : kind.type? = some type)
    (hvalues : ∀ name, (values name).type = types name) (hoperand : Typed g.names types operand type)
    (hx : evalExp call (globals values) x = Run.ofResult (operand.evaluate g.names values))
    (hz : unaryExp? (.standard kind) x = some z) :
    evalExp call (globals values) z =
      Run.ofResult ((Expr.unary (.standard kind) operand).evaluate g.names values) := by
  have hyield := hoperand.evaluate hvalues
  have happly : ∀ op : UnaryOp, kind = .minus ∧ op = .minus ∨ kind = .not ∧ op = .not →
      evalExp call (globals values) (.paren (.unary op x)) =
        Run.ofResult ((Expr.unary (.standard kind) operand).evaluate g.names values) := by
    intro op hop
    rw [evalExp, evalExp, hx]
    exact Run.ofResult_bind hyield fun v hv => UnaryOp.apply_ofScalar hop hkind hv
  cases kind with
  | plus =>
    cases hz
    cases hkind
    have hplus : ∀ v, v.type = .integer →
        pure (.ofScalar v) = Run.ofResult (UnaryKind.plus.evaluate v) := by
      intro v hv
      obtain ⟨a, rfl⟩ := Scalar.exists_integer hv
      rfl
    have hbind := Run.ofResult_bind hyield hplus
    rw [bind_pure, ← hx] at hbind
    exact hbind
  | minus =>
    cases hz
    exact happly .minus (Or.inl ⟨rfl, rfl⟩)
  | not =>
    cases hz
    exact happly .not (Or.inr ⟨rfl, rfl⟩)
  | addressOf => cases hz

theorem evalExp_strict {kind : BinaryKind} {left right : Expr} {operands type : ScalarType}
    {x y z : Exp String} (htarget : g.config.target ≠ .luaJIT) (depth : Nat)
    (hvalues : ∀ name, (values name).type = types name) (hkind : kind.Takes operands type)
    (hstrict : kind.IsStrict) (hleft : Typed g.names types left operands)
    (hright : Typed g.names types right operands)
    (hx : evalExp (apply (depth + 2)) (globals values) x = Run.ofResult (left.evaluate g.names values))
    (hy : evalExp (apply (depth + 2)) (globals values) y = Run.ofResult (right.evaluate g.names values))
    (hz : standardExp? (fun _ name => name) g.config.target kind x y = some z) :
    evalExp (apply (depth + 2)) (globals values) z =
      Run.ofResult ((Expr.binary (.standard kind) left right).evaluate g.names values) := by
  rw [Expr.evaluate_strict g.names values hstrict]
  have hyieldleft := hleft.evaluate hvalues
  have hyieldright := hright.evaluate hvalues
  by_cases hdivision : kind = .truncatedDivision
  · subst hdivision
    cases hz
    obtain ⟨rfl, -⟩ := hkind
    rw [evalExp_divided, hx, hy]
    refine Run.ofResult_bind hyieldleft fun v hv => Run.ofResult_bind hyieldright fun w hw => ?_
    obtain ⟨a, rfl⟩ := Scalar.exists_integer hv
    obtain ⟨b, rfl⟩ := Scalar.exists_integer hw
    exact apply_truncatedDivision (hasIntegers_of_ne htarget) rfl depth a b
  · obtain ⟨op, hop, rfl⟩ : ∃ op, binaryOp? kind = some op ∧ Exp.paren (.binary op x y) = z := by
      rwa [standardExp?, Option.map_eq_some_iff] at hz
      · exact hdivision
      · exact hstrict.2.2
    obtain ⟨hand, hor⟩ := binaryOp?_ne hop hstrict
    rw [evalExp, evalExp_binary op hand hor, hx, hy]
    exact Run.ofResult_bind hyieldleft fun v hv => Run.ofResult_bind hyieldright fun w hw =>
      BinaryOp.apply_ofScalar hop hkind hv hw hstrict

/-- A logical operation evaluates its right operand where its result depends on it. -/
theorem evalExp_logical {call : Value → List Value → Run Value} {kind : BinaryKind} {left right : Expr}
    {x y z : Exp String} (hkind : kind = .logicalAnd ∨ kind = .logicalOr ∨ kind = .implies)
    (hvalues : ∀ name, (values name).type = types name) (hleft : Typed g.names types left .boolean)
    (hx : evalExp call (globals values) x = Run.ofResult (left.evaluate g.names values))
    (hy : evalExp call (globals values) y = Run.ofResult (right.evaluate g.names values))
    (hz : standardExp? (fun _ name => name) g.config.target kind x y = some z) :
    evalExp call (globals values) z =
      Run.ofResult ((Expr.binary (.standard kind) left right).evaluate g.names values) := by
  have hyield := hleft.evaluate hvalues
  rcases hkind with rfl | rfl | rfl
  · cases hz
    rw [evalExp, evalExp_and, hx]
    refine Run.ofResult_bind hyield fun v hv => ?_
    obtain ⟨b, rfl⟩ := Scalar.exists_boolean hv
    cases b with
    | false => rfl
    | true => exact hy
  · cases hz
    rw [evalExp, evalExp_or, hx]
    refine Run.ofResult_bind hyield fun v hv => ?_
    obtain ⟨b, rfl⟩ := Scalar.exists_boolean hv
    cases b with
    | false => exact hy
    | true => rfl
  · cases hz
    rw [evalExp, evalExp_or, evalExp, evalExp, hx, bind_assoc]
    refine Run.ofResult_bind hyield fun v hv => ?_
    obtain ⟨b, rfl⟩ := Scalar.exists_boolean hv
    cases b with
    | false => rfl
    | true => exact hy

/-- The syntax tree of a well-typed expression has the value of the expression. -/
theorem evaluatesTo_toLua? (htarget : g.config.target ≠ .luaJIT)
    (hvalues : ∀ name, (values name).type = types name) {e : Expr} {type : ScalarType}
    (h : Typed g.names types e type) : ∀ {x : Exp String},
      (∀ node ∈ e.rendered, ∀ s ∈ node.symbols, ∀ name ∈ g.names.resolve s, name ≠ "math") →
        toLua? (fun _ name => name) g e = some x →
          EvaluatesTo values x (e.evaluate g.names values) := by
  induction h with
  | integer value =>
    rintro _ _ ⟨⟩
    exact ⟨0, fun depth _ => evalExp_integerExp (hasIntegers_of_ne htarget) rfl value⟩
  | boolean value =>
    rintro _ _ ⟨⟩
    exact ⟨0, fun depth _ => rfl⟩
  | @identifier s name hname =>
    intro x hnames hx
    have hmath := hnames _ (List.mem_singleton_self _) s (List.mem_singleton_self _)
    exact ⟨0, fun depth _ => evalExp_name_of_resolve hname hmath hx⟩
  | @localVariable read name hname =>
    intro x hnames hx
    have hmath := hnames _ (List.mem_singleton_self _) read.name (List.mem_singleton_self _)
    exact ⟨0, fun depth _ => evalExp_name_of_resolve hname hmath hx⟩
  | shared _ ih => exact ih
  | parentheses _ ih =>
    intro x hnames hx
    simp only [toLua?, Option.bind_eq_bind, Option.bind_eq_some_iff, Option.some.injEq] at hx
    obtain ⟨y, hy, rfl⟩ := hx
    rw [Expr.rendered, List.forall_mem_cons] at hnames
    obtain ⟨n, hn⟩ := ih hnames.2 hy
    exact ⟨n, fun depth hdepth => by rw [evalExp]; exact hn depth hdepth⟩
  | cast _ ih =>
    intro x hnames hx
    rw [Expr.rendered, List.forall_mem_cons] at hnames
    exact ih hnames.2 hx
  | unary hkind hoperand ih =>
    intro x hnames hx
    simp only [toLua?, Option.bind_eq_bind, Option.bind_eq_some_iff] at hx
    obtain ⟨y, hy, hx⟩ := hx
    rw [Expr.rendered, List.forall_mem_cons] at hnames
    obtain ⟨n, hn⟩ := ih hnames.2 hy
    exact ⟨n, fun depth hdepth => evalExp_unaryExp hkind hvalues hoperand (hn depth hdepth) hx⟩
  | @binary kind left right operands type hkind hleft hright ihleft ihright =>
    intro x hnames hx
    simp only [toLua?, Option.bind_eq_bind, Option.bind_eq_some_iff, binaryExp?,
      bitName?_of_ne htarget] at hx
    obtain ⟨y, hy, z, hz, hx⟩ := hx
    simp only [Expr.rendered, List.forall_mem_cons, List.forall_mem_append] at hnames
    obtain ⟨n, hn⟩ := ihleft hnames.2.1 hy
    obtain ⟨k, hk⟩ := ihright hnames.2.2 hz
    rcases kind.isStrict_or with hstrict | hlogical
    · refine ⟨max n k + 2, fun depth hdepth => ?_⟩
      obtain ⟨d, rfl⟩ : ∃ d, depth = d + 2 := ⟨depth - 2, by omega⟩
      exact evalExp_strict htarget d hvalues hkind hstrict hleft hright (hn _ (by omega))
        (hk _ (by omega)) hx
    · obtain rfl : operands = .boolean := by
        rcases hlogical with rfl | rfl | rfl
        · exact hkind.1
        · exact hkind.1
        · exact hkind.1
      exact ⟨max n k, fun depth hdepth =>
        evalExp_logical hlogical hvalues hleft (hn _ (by omega)) (hk _ (by omega)) hx⟩
  | conditional hcondition _ _ ihcondition ihconsequence ihalternative =>
    intro x hnames hx
    simp only [toLua?, Option.bind_eq_bind, Option.bind_eq_some_iff, Option.some.injEq] at hx
    obtain ⟨y, hy, z, hz, a, ha, rfl⟩ := hx
    simp only [Expr.rendered, renderedExpr?, List.forall_mem_cons, List.forall_mem_append] at hnames
    obtain ⟨n, hn⟩ := ihcondition hnames.2.1.1 hy
    obtain ⟨k, hk⟩ := ihconsequence hnames.2.1.2 hz
    obtain ⟨l, hl⟩ := ihalternative hnames.2.2 ha
    refine ⟨max n (max k l) + 1, fun depth hdepth => ?_⟩
    obtain ⟨d, rfl⟩ : ∃ d, depth = d + 1 := ⟨depth - 1, by omega⟩
    rw [evalExp_conditional, hn d (by omega)]
    refine Run.ofResult_bind (hcondition.evaluate hvalues) fun v hv => ?_
    obtain ⟨b, rfl⟩ := Scalar.exists_boolean hv
    cases b with
    | false => exact hl d (by omega)
    | true => exact hk d (by omega)

/-! ## The generator -/

theorem exists_binaryForm {target : Target} {kind : BinaryKind} {operands type : ScalarType}
    (hkind : kind.Takes operands type) :
    ∃ form, binaryForm target (.standard kind) = .ok form := by
  cases kind with
  | division | modulus | logicalXor | shiftLeft | shiftRight | is | isNot | isIn | notIn =>
    exact hkind.elim
  | addition | subtraction | multiplication | truncatedDivision | bitwiseAnd | bitwiseOr | bitwiseXor
  | lessThan | lessThanOrEquals | greaterThan | greaterThanOrEquals | equals | notEquals | logicalAnd
  | logicalOr | implies => cases target <;> exact ⟨_, rfl⟩

theorem exists_yields {e : Expr} {type : ScalarType} (h : Typed g.names types e type) (n : Nat) :
    ∃ w, Yields (emitExpr g e) n () w := by
  induction h with
  | integer | boolean => exact ⟨_, yields_emitAtom_literal.2 rfl⟩
  | identifier hname => exact ⟨_, yields_emitAtom_identifier.2 ⟨_, hname, rfl⟩⟩
  | localVariable hname => exact ⟨_, yields_emitAtom_localVariable.2 ⟨_, hname, rfl⟩⟩
  | shared _ ih => exact ih
  | parentheses _ ih =>
    obtain ⟨v, hv⟩ := ih
    exact ⟨_, yields_emitExpr_parentheses.2 ⟨v, hv, rfl⟩⟩
  | cast _ ih => exact ih
  | @unary kind _ _ hkind _ ih =>
    obtain ⟨v, hv⟩ := ih
    cases kind with
    | plus => exact ⟨v, hv⟩
    | minus | not => exact ⟨_, yields_emitExpr_unary.2 (yields_emitPrefixed.2 ⟨v, hv, rfl⟩)⟩
    | addressOf => exact nomatch hkind
  | binary hkind _ _ ihleft ihright =>
    obtain ⟨form, hform⟩ := exists_binaryForm hkind
    obtain ⟨v, hv⟩ := ihleft
    obtain ⟨u, hu⟩ := ihright
    exact ⟨_, yields_emitExpr_binary.2 ⟨form, v, u, hform, hv, hu, rfl⟩⟩
  | conditional _ _ _ ihcondition ihconsequence ihalternative =>
    obtain ⟨v, hv⟩ := ihcondition
    obtain ⟨u, hu⟩ := ihconsequence
    obtain ⟨t, ht⟩ := ihalternative
    exact ⟨_, yields_emitExpr_conditional_some.2 ⟨v, u, t, hv, hu, ht, rfl⟩⟩

/-- A node that is neither raw code nor a method, and has no custom operator and no accesses. -/
structure Plain (node : Node) : Prop where
  notRaw : node.isRaw = false
  notMethod : node.isMethod = false
  standard : node.customText? = none
  sites : node.sites = []

theorem plain_of_typed {e : Expr} {type : ScalarType} (h : Typed g.names types e type) :
    ∀ node ∈ e.rendered, Plain node := by
  induction h with
  | integer | boolean | identifier | localVariable =>
    rw [Expr.rendered, List.forall_mem_singleton]
    exact ⟨rfl, rfl, rfl, rfl⟩
  | shared _ ih => exact ih
  | parentheses _ ih | cast _ ih | unary _ _ ih =>
    rw [Expr.rendered, List.forall_mem_cons]
    exact ⟨⟨rfl, rfl, rfl, rfl⟩, ih⟩
  | binary _ _ _ ihleft ihright =>
    rw [Expr.rendered, List.forall_mem_cons, List.forall_mem_append]
    exact ⟨⟨rfl, rfl, rfl, rfl⟩, ihleft, ihright⟩
  | conditional _ _ _ ihcondition ihconsequence ihalternative =>
    rw [Expr.rendered, List.forall_mem_cons, List.forall_mem_append, List.forall_mem_append]
    exact ⟨⟨rfl, rfl, rfl, rfl⟩, ⟨ihcondition, ihconsequence⟩, ihalternative⟩

end Trees

/-- The text of a well-typed expression is read as a syntax tree that has the value of the expression,
whatever the values of its names are. -/
theorem evaluates_generateExpression {names : NameTable} {config : Config} {types : String → ScalarType}
    {e : Expr} {type : ScalarType} (htarget : config.target ≠ .luaJIT)
    (htyped : Typed names types e type)
    (hnames : ∀ node ∈ e.rendered, ∀ s ∈ node.symbols, ∀ name ∈ names.resolve s,
      isName name = true ∧ name ≠ "math") :
    ∃ text x, ((Generator.new names config).generateExpression e).1 = .ok text ∧
      readExpression text = some x ∧
        ∀ values : String → Scalar, (∀ name, (values name).type = types name) →
          EvaluatesTo values x (e.evaluate names values) := by
  have hplain := plain_of_typed (g := ⟨names, config⟩) htyped
  have hsites : ∀ node ∈ e.rendered, ∀ site ∈ node.sites, site.takesSuffix = true := by
    intro node hnode site hsite
    rw [(hplain node hnode).sites] at hsite
    exact nomatch hsite
  have hspellable : ∀ node ∈ e.rendered, Spellable ⟨names, config⟩ node := fun node hnode =>
    ⟨(hplain node hnode).notRaw, (hplain node hnode).standard,
      fun s hs name hname => (hnames node hnode s hs name hname).1, hsites node hnode⟩
  have hregular : ∀ node ∈ e.rendered, Regular node := fun node hnode =>
    ⟨(hplain node hnode).notMethod, (hplain node hnode).standard, hsites node hnode⟩
  obtain ⟨w, hw⟩ := exists_yields (g := ⟨names, config⟩) htyped 0
  rw [← @String.toList_ofList w] at hw
  obtain ⟨x, hx, hread⟩ := readExpression_of_yields hspellable hregular hw
  refine ⟨String.ofList w, x, generateExpression_eq_ok.2 hw, hread, fun values hvalues => ?_⟩
  exact evaluatesTo_toLua? htarget hvalues htyped
    (fun node hnode s hs name hname => (hnames node hnode s hs name hname).2) hx

/-- The smallest integer divided by minus one, which wraps around. The dividend is a variable `b` and the
divisor a variable `a`. -/
theorem evaluates_quotient_of_b_by_a :
    ∃ text x, ((Generator.new ⟨["a", "b"]⟩ {}).generateExpression
        (.binary (.standard .truncatedDivision) (.identifier ⟨1⟩) (.identifier ⟨0⟩))).1 = .ok text ∧
      readExpression text = some x ∧
        EvaluatesTo (fun name => if name = "b" then .integer Int64.minValue else .integer (-1)) x
          (.ok (.integer Int64.minValue)) := by
  have htyped : Typed ⟨["a", "b"]⟩ (fun _ => .integer)
      (.binary (.standard .truncatedDivision) (.identifier ⟨1⟩) (.identifier ⟨0⟩)) .integer :=
    .binary ⟨rfl, rfl⟩ (@Typed.identifier _ _ ⟨1⟩ "b" rfl) (@Typed.identifier _ _ ⟨0⟩ "a" rfl)
  obtain ⟨text, x, htext, hread, hvalue⟩ := @evaluates_generateExpression ⟨["a", "b"]⟩ {} _ _ _
    (by decide) htyped (by decide)
  refine ⟨text, x, htext, hread, hvalue _ fun name => ?_⟩
  split <;> rfl

end CodeTree.Lua
