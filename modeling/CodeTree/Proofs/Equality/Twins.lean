import CodeTree.Proofs.Emission.Rendered
import CodeTree.Proofs.Emission.Text
import CodeTree.Proofs.Equality.Numbers
import CodeTree.Proofs.Equality.Unsigned
import CodeTree.Proofs.Lexical.Numerals

/-! # Texts that differ in signs of zeros

Of two numbers that are equal but not the same one is zero and the other is negative zero, and they are
written `0.0` and `-0.0`, the latter behind a blank if a minus sign stands before it. Two texts are twins if
they are read side by side as the same characters, the same numbers and such zeros. They are the same text
exactly if the signs are the same: where they differ first, one goes on with a minus sign or a blank and the
other with a zero, so nothing behind them makes up for it.

* `numbers`: the numbers among some nodes.
* `Twins`: two texts with numbers of their own.
* `Twins.eq_iff`: when twins are the same text.
* `WritesTwins`: two actions that write twins, or are both refused for reasons of one kind.
* `writesTwins_emitBetween` to `writesTwins_emitExpressionLine`: one statement for each form. -/

namespace CodeTree

set_option autoImplicit false

/-! ## Numbers -/

/-- The numbers in the floating point literals among some nodes. -/
def numbers (nodes : List Node) : List Binary64 := nodes.filterMap Node.float?

theorem numbers_append (nodes nodes' : List Node) : numbers (nodes ++ nodes') = numbers nodes ++ numbers nodes' :=
  List.filterMap_append

theorem numbers_cons {node : Node} (h : node.float? = none) (nodes : List Node) :
    numbers (node :: nodes) = numbers nodes :=
  List.filterMap_cons_none h

theorem Binary64.isZero_zero : zero.isZero = true := by decide

theorem Binary64.isZero_negativeZero : negativeZero.isZero = true := by decide

namespace Lua

/-! ## Texts -/

/-- The text of zero, of the positive or of the negative one. -/
def zeroText (negative : Bool) : List Char := if negative then ['-', '0', '.', '0'] else ['0', '.', '0']

/-- The text of zero behind a minus sign. A blank keeps the two signs apart. -/
def zeroTextBehindMinus (negative : Bool) : List Char :=
  if negative then ' ' :: zeroText true else zeroText false

/-- Two texts that are the same but for the signs of zeros, with the numbers in each of them in order. -/
inductive Twins : List Binary64 → List Binary64 → List Char → List Char → Prop
  | nil : Twins [] [] [] []
  | char {xs ys : List Binary64} {v w : List Char} (c : Char) (h : Twins xs ys v w) :
      Twins xs ys (c :: v) (c :: w)
  | number {xs ys : List Binary64} {v w : List Char} (x : Binary64) (h : Twins xs ys v w) :
      Twins (x :: xs) (x :: ys) ((floatText x).toList ++ v) ((floatText x).toList ++ w)
  | zeros {x y : Binary64} {xs ys : List Binary64} {v w : List Char} (hx : x.isZero = true)
      (hy : y.isZero = true) (h : Twins xs ys v w) :
      Twins (x :: xs) (y :: ys) (zeroText x.isNegative ++ v) (zeroText y.isNegative ++ w)
  | zerosBehindMinus {x y : Binary64} {xs ys : List Binary64} {v w : List Char} (hx : x.isZero = true)
      (hy : y.isZero = true) (h : Twins xs ys v w) :
      Twins (x :: xs) (y :: ys) ('-' :: zeroTextBehindMinus x.isNegative ++ v)
        ('-' :: zeroTextBehindMinus y.isNegative ++ w)

section Twins

variable {xs ys xs' ys' : List Binary64} {v w v' w' : List Char}

theorem Twins.refl (v : List Char) : Twins [] [] v v := by
  induction v with
  | nil => exact .nil
  | cons c v ih => exact .char c ih

theorem Twins.append (h : Twins xs ys v w) (h' : Twins xs' ys' v' w') :
    Twins (xs ++ xs') (ys ++ ys') (v ++ v') (w ++ w') := by
  induction h with
  | nil => exact h'
  | char c h ih => exact .char c ih
  | number x h ih =>
    rw [List.append_assoc, List.append_assoc]
    exact .number x ih
  | zeros hx hy h ih =>
    rw [List.append_assoc, List.append_assoc]
    exact .zeros hx hy ih
  | zerosBehindMinus hx hy h ih =>
    rw [List.append_assoc, List.append_assoc]
    exact .zerosBehindMinus hx hy ih

/-- A text behind the same characters. -/
theorem Twins.behind (u : List Char) (h : Twins xs ys v w) : Twins xs ys (u ++ v) (u ++ w) :=
  (Twins.refl u).append h

/-- If twins go on to be the same text, then they have the same signs. -/
theorem Twins.signs_eq (h : Twins xs ys v w) : ∀ {rest rest' : List Char}, v ++ rest = w ++ rest' →
    xs.map Binary64.isNegative = ys.map Binary64.isNegative := by
  induction h with
  | nil => exact fun _ => rfl
  | char c h ih => exact fun heq => ih (List.tail_eq_of_cons_eq heq)
  | number x h ih =>
    intro rest rest' heq
    rw [List.append_assoc, List.append_assoc] at heq
    exact congrArg (x.isNegative :: ·) (ih (List.append_cancel_left heq))
  | @zeros x y xs ys v w hx hy h ih | @zerosBehindMinus x y xs ys v w hx hy h ih =>
    intro rest rest' heq
    rw [List.append_assoc, List.append_assoc] at heq
    rw [List.map_cons, List.map_cons]
    cases hxs : x.isNegative <;> cases hys : y.isNegative <;> rw [hxs, hys] at heq
    · exact congrArg (false :: ·) (ih (List.append_cancel_left heq))
    -- With different signs the texts differ in the first character of the zero.
    · cases heq
    · cases heq
    · exact congrArg (true :: ·) (ih (List.append_cancel_left heq))

theorem Twins.eq_of_signs_eq (h : Twins xs ys v w)
    (heq : xs.map Binary64.isNegative = ys.map Binary64.isNegative) : v = w := by
  induction h with
  | nil => rfl
  | char c h ih => rw [ih heq]
  | number x h ih => rw [ih (List.cons.inj heq).2]
  | zeros hx hy h ih | zerosBehindMinus hx hy h ih =>
    obtain ⟨hsign, hrest⟩ := List.cons.inj heq
    rw [ih hrest, hsign]

/-- Twins are the same text exactly if the numbers in them have the same signs. -/
theorem Twins.eq_iff (h : Twins xs ys v w) :
    v = w ↔ xs.map Binary64.isNegative = ys.map Binary64.isNegative :=
  ⟨fun heq => h.signs_eq (congrArg (· ++ []) heq), h.eq_of_signs_eq⟩

theorem floatText_ne_nil (x : Binary64) : (floatText x).toList ≠ [] := by
  by_cases hnan : x.isNaN = true
  · rw [floatText, if_pos hnan]
    decide
  · rw [Bool.not_eq_true] at hnan
    by_cases hinfinite : x.isInfinite = true
    · simp only [floatText, hnan, hinfinite, Bool.false_eq_true, if_false, if_true]
      cases x.isNegative <;> decide
    · rw [Bool.not_eq_true] at hinfinite
      obtain ⟨whole, fraction, -, -, htext⟩ := isPositional_positional x.shortest
      simp [toList_floatText hnan hinfinite, htext]

/-- Twins begin with one character, or both with a zero. -/
theorem Twins.opens (h : Twins xs ys v w) :
    v.head? = w.head? ∨ v.head? ∈ [some '-', some '0'] ∧ w.head? ∈ [some '-', some '0'] := by
  cases h with
  | nil | char | zerosBehindMinus => exact .inl rfl
  | number x h =>
    obtain ⟨c, cs, htext⟩ := List.exists_cons_of_ne_nil (floatText_ne_nil x)
    rw [htext]
    exact .inl rfl
  | @zeros x y =>
    cases x.isNegative <;> cases y.isNegative <;> exact .inr (by simp [zeroText])

/-- Behind a minus sign a blank keeps negative zero apart from it, in one of two twins or in both. -/
theorem Twins.behindMinus {operator : String} (hminus : endsWith '-' operator = true)
    (h : Twins xs ys v w) : Twins xs ys ('-' :: (gap operator v ++ v)) ('-' :: (gap operator w ++ w)) := by
  have hgap {c : Char} {u : List Char} : gap operator (c :: u) = if c = '-' then [' '] else [] := by
    simp [gap, hminus]
  cases h with
  | nil => exact (Twins.nil.behind _).char '-'
  | char c h =>
    rw [hgap, hgap]
    exact ((h.char c).behind _).char '-'
  | number x h =>
    obtain ⟨c, cs, htext⟩ := List.exists_cons_of_ne_nil (floatText_ne_nil x)
    have hnumber := h.number x
    rw [htext, List.cons_append, List.cons_append] at hnumber ⊢
    rw [hgap, hgap]
    exact (hnumber.behind _).char '-'
  | @zeros x y xs ys v w hx hy h =>
    -- Only here may one text open with a minus sign and the other not.
    have hzero (negative : Bool) (u : List Char) :
        gap operator (zeroText negative ++ u) ++ (zeroText negative ++ u) =
          zeroTextBehindMinus negative ++ u := by
      cases negative <;> exact congrArg (· ++ _) hgap
    rw [hzero, hzero]
    exact .zerosBehindMinus hx hy h
  | zerosBehindMinus hx hy h =>
    rw [List.cons_append, List.cons_append, hgap, hgap]
    exact ((Twins.zerosBehindMinus hx hy h).behind _).char '-'

theorem Twins.prefixed (operator : String) (h : Twins xs ys v w) :
    Twins xs ys ('(' :: operator.toList ++ gap operator v ++ v ++ [')'])
      ('(' :: operator.toList ++ gap operator w ++ w ++ [')']) := by
  have happlied : Twins xs ys (operator.toList ++ (gap operator v ++ v))
      (operator.toList ++ (gap operator w ++ w)) := by
    cases hminus : endsWith '-' operator with
    | false =>
      rw [gap_eq_nil hminus, gap_eq_nil hminus]
      exact h.behind _
    | true =>
      obtain ⟨text, htext⟩ := List.getLast?_eq_some_iff.1 (eq_of_beq hminus)
      rw [htext, List.append_assoc, List.append_assoc]
      exact (h.behindMinus hminus).behind text
  simpa using (happlied.append (Twins.refl [')'])).char '('

theorem Twins.semicolon (h : Twins xs ys v w) :
    Twins xs ys (semicolon v ++ v) (semicolon w ++ w) := by
  have hsame : Lua.semicolon v = Lua.semicolon w := by
    rcases h.opens with hhead | ⟨hv, hw⟩
    · rw [Lua.semicolon, Lua.semicolon, hhead]
    · simp only [List.mem_cons, List.not_mem_nil, or_false] at hv hw
      rcases hv with hv | hv <;> rcases hw with hw | hw <;> simp [Lua.semicolon, hv, hw]
  rw [hsame]
  exact h.behind _

end Twins

/-- Numbers that differ in the signs of zeros are written as twins. -/
theorem twins_floatText {x y : Binary64} (h : x.unsigned = y.unsigned) :
    Twins [x] [y] (floatText x).toList (floatText y).toList := by
  have hzero : (floatText Binary64.zero).toList = zeroText false := by decide
  have hnegative : (floatText Binary64.negativeZero).toList = zeroText true := by decide
  rcases Binary64.eq_or_zeros_of_unsigned_eq h with rfl | ⟨rfl, rfl⟩ | ⟨rfl, rfl⟩
  · simpa using Twins.nil.number x
  · rw [hzero, hnegative]
    exact .zeros Binary64.isZero_zero Binary64.isZero_negativeZero .nil
  · rw [hzero, hnegative]
    exact .zeros Binary64.isZero_negativeZero Binary64.isZero_zero .nil

/-! ## Actions -/

/-- Two actions that write twins with the numbers among some nodes and use the `bit` library alike, or are
both refused for reasons of one kind. -/
def WritesTwins (nodes nodes' : List Node) (action action' : Emit Unit) : Prop :=
  ∀ n, (∃ v w bit, Adds action n () v bit ∧ Adds action' n () w bit ∧
      Twins (numbers nodes) (numbers nodes') v w) ∨
    ∃ error error', Stops action n error ∧ Stops action' n error' ∧ error.kind = error'.kind

section Actions

variable {α : Type} {g : Setting} {action action' : Emit Unit} {nodes nodes' others others' : List Node}

/-- An action writes twins with itself, in which no number need be told apart. -/
theorem WritesTwins.refl (action : Emit Unit) [h : Tidy action] : WritesTwins [] [] action action := by
  intro n
  rcases h.adds_or_stops n with ⟨_, w, bit, hadds⟩ | ⟨error, hstops⟩
  · exact .inl ⟨w, w, bit, hadds, hadds, .refl w⟩
  · exact .inr ⟨error, error, hstops, hstops, rfl⟩

theorem WritesTwins.bind {next next' : Unit → Emit Unit} (h : WritesTwins nodes nodes' action action')
    (hnext : ∀ u, WritesTwins others others' (next u) (next' u)) :
    WritesTwins (nodes ++ others) (nodes' ++ others') (action >>= next) (action' >>= next') := by
  intro n
  rcases h n with ⟨v, w, bit, hv, hw, htwins⟩ | ⟨error, error', hs, hs', hkind⟩
  · rcases hnext () n with ⟨v', w', bit', hv', hw', htwins'⟩ | ⟨error, error', hs, hs', hkind⟩
    · rw [numbers_append, numbers_append]
      exact .inl ⟨_, _, _, hv.bind hv', hw.bind hw', htwins.append htwins'⟩
    · exact .inr ⟨error, error', hv.bind_stops hs, hw.bind_stops hs', hkind⟩
  · exact .inr ⟨error, error', hs.bind, hs'.bind, hkind⟩

/-- The same action, and then two that write twins. -/
theorem WritesTwins.after {first : Emit α} [hfirst : Tidy first] {next next' : α → Emit Unit}
    (h : ∀ a, WritesTwins nodes nodes' (next a) (next' a)) :
    WritesTwins nodes nodes' (first >>= next) (first >>= next') := by
  intro n
  rcases hfirst.adds_or_stops n with ⟨a, u, b, hu⟩ | ⟨error, hstops⟩
  · rcases h a n with ⟨v, w, bit, hv, hw, htwins⟩ | ⟨error, error', hs, hs', hkind⟩
    · exact .inl ⟨_, _, _, hu.bind hv, hu.bind hw, htwins.behind u⟩
    · exact .inr ⟨error, error', hu.bind_stops hs, hu.bind_stops hs', hkind⟩
  · exact .inr ⟨error, error, hstops.bind, hstops.bind, rfl⟩

/-- Two actions that write twins, and then the same action. -/
theorem WritesTwins.before {next : Unit → Emit Unit} [∀ u, Tidy (next u)]
    (h : WritesTwins nodes nodes' action action') :
    WritesTwins nodes nodes' (action >>= next) (action' >>= next) := by
  have hbind := h.bind fun u => WritesTwins.refl (next u)
  rwa [List.append_nil, List.append_nil] at hbind

theorem writesTwins_refuse {error error' : EmitError} (h : error.kind = error'.kind) :
    WritesTwins nodes nodes' (refuse error) (refuse error') :=
  fun n => .inr ⟨error, error', stops_refuse error n, stops_refuse error' n, h⟩

/-- A node that is no number adds none. -/
theorem WritesTwins.below {node node' : Node} (h : WritesTwins nodes nodes' action action')
    (hnode : node.float? = none) (hnode' : node'.float? = none) :
    WritesTwins (node :: nodes) (node' :: nodes') action action' := by
  intro n
  rw [numbers_cons hnode, numbers_cons hnode']
  exact h n

theorem WritesTwins.deeper (h : WritesTwins nodes nodes' action action') :
    WritesTwins nodes nodes' (deeper action) (Lua.deeper action') := by
  intro n
  rcases h (n + 1) with ⟨v, w, bit, hv, hw, htwins⟩ | ⟨error, error', hs, hs', hkind⟩
  · exact .inl ⟨v, w, bit, hv.deeper, hw.deeper, htwins⟩
  · exact .inr ⟨error, error', hs.deeper, hs'.deeper, hkind⟩

/-! ## Forms -/

theorem writesTwins_emitBetween (opening closing : String) (h : WritesTwins nodes nodes' action action') :
    WritesTwins nodes nodes' (emitBetween opening closing action) (emitBetween opening closing action') :=
  .after fun _ => h.before

theorem adds_emitPrefixed {operator : String} {n : Nat} {v : List Char} {bit : Bool}
    (h : Adds action n () v bit) :
    Adds (emitPrefixed operator action) n ()
      ('(' :: operator.toList ++ gap operator v ++ v ++ [')']) bit := by
  have hadds : Adds (emitPrefixed operator action) n () _ _ :=
    (adds_write _ n).bind (h.capture.bind ((adds_write _ n).bind (adds_write ")" n)))
  simpa [toList_apart] using hadds

theorem writesTwins_emitPrefixed (operator : String) (h : WritesTwins nodes nodes' action action') :
    WritesTwins nodes nodes' (emitPrefixed operator action) (emitPrefixed operator action') := by
  intro n
  rcases h n with ⟨v, w, bit, hv, hw, htwins⟩ | ⟨error, error', hs, hs', hkind⟩
  · exact .inl ⟨_, _, bit, adds_emitPrefixed hv, adds_emitPrefixed hw, htwins.prefixed operator⟩
  · exact .inr ⟨error, error', (adds_write _ n).bind_stops hs.capture.bind,
      (adds_write _ n).bind_stops hs'.capture.bind, hkind⟩

theorem writesTwins_emitUnary (operator : Operator UnaryKind)
    (h : WritesTwins nodes nodes' action action') :
    WritesTwins nodes nodes' (emitUnary operator action) (emitUnary operator action') := by
  cases operator with
  | custom text => exact writesTwins_emitPrefixed _ h
  | standard kind =>
    cases kind with
    | plus => exact h
    | addressOf => exact writesTwins_refuse rfl
    | minus | not => exact writesTwins_emitPrefixed _ h

theorem writesTwins_emitBinary {operator : Operator BinaryKind} {left left' right right' : Emit Unit}
    (hleft : WritesTwins nodes nodes' left left') (hright : WritesTwins others others' right right') :
    WritesTwins (nodes ++ others) (nodes' ++ others') (emitBinary g operator left right)
      (emitBinary g operator left' right') := by
  have hform (form : BinaryForm) : WritesTwins (nodes ++ others) (nodes' ++ others')
      (emitInForm form left right) (emitInForm form left' right') :=
    .after fun _ => hleft.bind fun _ => .after fun _ => hright.before
  unfold emitBinary
  cases binaryForm g.config.target operator with
  | error kind =>
    cases needsBitLibrary g.config.target operator with
    | false => exact writesTwins_refuse rfl
    | true => exact .after fun _ => writesTwins_refuse rfl
  | ok form =>
    cases needsBitLibrary g.config.target operator with
    | false => exact hform form
    | true => exact .after fun _ => hform form

theorem writesTwins_emitMember_none {selection : Selection} {arguments arguments' : Option (Emit Unit)}
    {optional : Bool} (hcall : WritesTwins nodes nodes' (emitCall arguments) (emitCall arguments')) :
    WritesTwins nodes nodes' (emitMember g none selection arguments optional)
      (emitMember g none selection arguments' optional) := by
  rw [emitMember_eq, emitMember_eq]
  exact .after fun _ => .after fun _ => hcall

/-- A guarded access has its arguments before its site. -/
theorem writesTwins_emitMember_some {isType : Bool} {selection : Selection}
    {arguments arguments' : Option (Emit Unit)} {optional : Bool}
    (hsite : WritesTwins nodes nodes' action action')
    (hcall : WritesTwins others others' (emitCall arguments) (emitCall arguments'))
    (hsome : arguments.isSome = arguments'.isSome) :
    WritesTwins (if selection.nilSafe || optional then others ++ nodes else nodes ++ others)
      (if selection.nilSafe || optional then others' ++ nodes' else nodes' ++ others')
      (emitMember g (some ⟨isType, action⟩) selection arguments optional)
      (emitMember g (some ⟨isType, action'⟩) selection arguments' optional) := by
  rw [emitMember_eq, emitMember_eq]
  refine .after fun member => ?_
  simp only [emitAccess, hsome]
  split
  · exact .after fun _ => .after fun _ => hcall.bind fun _ => .after fun _ => hsite.before
  · exact hsite.bind fun _ => .after fun _ => hcall

theorem writesTwins_emitLine (h : WritesTwins nodes nodes' action action') :
    WritesTwins nodes nodes' (emitLine g action) (emitLine g action') :=
  .after fun _ => h.before

theorem adds_emitExpressionLine {n : Nat} {v : List Char} {bit : Bool} (h : Adds action n () v bit) :
    Adds (emitExpressionLine g action) n ()
      (List.replicate (n * g.config.indentWidth) ' ' ++ (semicolon v ++ v ++ ['\n'])) bit := by
  have hadds : Adds (emitExpressionLine g action) n () _ _ :=
    (adds_indent _ n).bind (h.capture.bind ((adds_write _ n).bind (adds_write "\n" n)))
  simpa [toList_separated] using hadds

theorem writesTwins_emitExpressionLine (h : WritesTwins nodes nodes' action action') :
    WritesTwins nodes nodes' (emitExpressionLine g action) (emitExpressionLine g action') := by
  intro n
  rcases h n with ⟨v, w, bit, hv, hw, htwins⟩ | ⟨error, error', hs, hs', hkind⟩
  · refine .inl ⟨_, _, bit, adds_emitExpressionLine hv, adds_emitExpressionLine hw, ?_⟩
    have hline := (htwins.semicolon.append (Twins.refl ['\n'])).behind
      (List.replicate (n * g.config.indentWidth) ' ')
    rwa [List.append_nil, List.append_nil] at hline
  · exact .inr ⟨error, error', (adds_indent _ n).bind_stops hs.capture.bind,
      (adds_indent _ n).bind_stops hs'.capture.bind, hkind⟩

end Actions

end Lua

end CodeTree
