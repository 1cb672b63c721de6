import CodeTree.Proofs.Emission.Rendered
import CodeTree.Proofs.Emission.Text

/-! # Where statements stand

Every statement of a tree that is written, also inside of methods at any depth, is written behind a line
break, by itself and at some depth. To say so of the first statement of a list, its text is looked at
behind a line break.

* `Placed`: the text of a statement stands at the beginning of a line.
* `allPlaced_emitExpr`, `allPlaced_emitStatements`: so do the texts of all statements that are written. -/

namespace CodeTree.Lua

set_option autoImplicit false

/-- The text of a statement stands behind a line break. -/
def Placed (g : Setting) (s : Statement) (w : List Char) : Prop :=
  ∃ before v after n, w = before ++ '\n' :: v ++ after ∧ Yields (emitStatement g s) n () v

/-- The texts of all statements among some nodes stand behind line breaks, and with each statement what
is below it is among the nodes. -/
def AllPlaced (g : Setting) (nodes : List Node) (w : List Char) : Prop :=
  ∀ s, .statement s ∈ nodes → Placed g s w ∧ s.rendered ⊆ nodes

/-- A text that ends a line, behind a line break. -/
def EndsLine (w : List Char) : Prop := ∃ u, '\n' :: w = u ++ ['\n']

variable {g : Setting} {n : Nat} {u v w : List Char} {nodes nodes' : List Node}

/-! ## Pieces of text -/

theorem AllPlaced.append_left (h : AllPlaced g nodes v) (u : List Char) : AllPlaced g nodes (u ++ v) := by
  intro s hs
  obtain ⟨⟨before, t, after, n, rfl, ht⟩, hbelow⟩ := h s hs
  exact ⟨⟨u ++ before, t, after, n, by simp, ht⟩, hbelow⟩

theorem AllPlaced.append_right (h : AllPlaced g nodes v) (u : List Char) :
    AllPlaced g nodes (v ++ u) := by
  intro s hs
  obtain ⟨⟨before, t, after, n, rfl, ht⟩, hbelow⟩ := h s hs
  exact ⟨⟨before, t, after ++ u, n, by simp, ht⟩, hbelow⟩

theorem AllPlaced.cons (h : AllPlaced g nodes v) (c : Char) : AllPlaced g nodes (c :: v) :=
  h.append_left [c]

/-- What stands behind a line break can stand behind a text that ends a line. -/
theorem AllPlaced.behind (h : AllPlaced g nodes ('\n' :: v)) (hu : EndsLine u) :
    AllPlaced g nodes ('\n' :: (u ++ v)) := by
  obtain ⟨t, ht⟩ := hu
  have hplaced := h.append_left t
  rwa [List.append_cons, ← ht] at hplaced

theorem allPlaced_nil : AllPlaced g [] w := nofun

theorem allPlaced_expression {e : Expr} (h : AllPlaced g nodes w) :
    AllPlaced g (.expression e :: nodes) w := by
  intro s hs
  obtain ⟨hplaced, hbelow⟩ := h s (by simpa using hs)
  exact ⟨hplaced, List.subset_cons_of_subset _ hbelow⟩

theorem allPlaced_statement {s : Statement} (hrendered : s.rendered = .statement s :: nodes)
    (hw : Yields (emitStatement g s) n () w) (h : AllPlaced g nodes ('\n' :: w)) :
    AllPlaced g s.rendered ('\n' :: w) := by
  intro t ht
  rw [hrendered] at ht ⊢
  rcases List.mem_cons.1 ht with heq | ht
  · cases heq
    exact ⟨⟨[], w, [], n, by simp, hw⟩, by rw [hrendered]; exact List.Subset.refl _⟩
  · obtain ⟨hplaced, hbelow⟩ := h t ht
    exact ⟨hplaced, List.subset_cons_of_subset _ hbelow⟩

theorem allPlaced_append (h : AllPlaced g nodes w) (h' : AllPlaced g nodes' w) :
    AllPlaced g (nodes ++ nodes') w := by
  intro s hs
  rcases List.mem_append.1 hs with hs | hs
  · obtain ⟨hplaced, hbelow⟩ := h s hs
    exact ⟨hplaced, List.subset_append_of_subset_left _ hbelow⟩
  · obtain ⟨hplaced, hbelow⟩ := h' s hs
    exact ⟨hplaced, List.subset_append_of_subset_right _ hbelow⟩

theorem EndsLine.append (hu : EndsLine u) (hv : EndsLine v) : EndsLine (u ++ v) := by
  obtain ⟨s, hs⟩ := hu
  obtain ⟨t, ht⟩ := hv
  exact ⟨s ++ t, by rw [List.append_assoc, ← ht, List.append_cons, ← hs]; simp⟩

theorem endsLine_nil : EndsLine [] := ⟨[], rfl⟩

theorem endsLine_newline (w : List Char) : EndsLine (w ++ ['\n']) := ⟨'\n' :: w, rfl⟩

/-! ## Lines -/

theorem endsLine_emitStatement {s : Statement} (hw : Yields (emitStatement g s) n () w) :
    EndsLine w := by
  cases s with
  | expression value =>
    obtain ⟨-, v, -, rfl⟩ := yields_emitStatement_expression.1 hw
    exact endsLine_newline _
  | declaration declared =>
    obtain ⟨v, -, rfl⟩ := yields_emitStatement_declaration.1 hw
    exact endsLine_newline _
  | assignment target value =>
    obtain ⟨t, v, -, -, rfl⟩ := yields_emitStatement_assignment.1 hw
    exact endsLine_newline _
  | result value =>
    cases value with
    | none =>
      rw [yields_emitStatement_result_none.1 hw]
      exact ⟨'\n' :: List.replicate (n * g.config.indentWidth) ' ' ++ "return".toList, by simp⟩
    | some value =>
      obtain ⟨v, -, rfl⟩ := yields_emitStatement_result_some.1 hw
      exact endsLine_newline _
  | block body =>
    obtain ⟨b, -, rfl⟩ := yields_emitStatement_block.1 hw
    exact ⟨'\n' :: List.replicate (n * g.config.indentWidth) ' ' ++ "do\n".toList ++ b
      ++ List.replicate (n * g.config.indentWidth) ' ' ++ "end".toList, by simp⟩

theorem endsLine_emitDefaultValues {parameters : List Parameter} :
    ∀ {w}, Yields (emitDefaultValues g parameters) n () w → EndsLine w := by
  induction parameters with
  | nil =>
    intro w hw
    rw [yields_emitDefaultValues_nil.1 hw]
    exact endsLine_nil
  | cons p parameters ih =>
    intro w hw
    obtain ⟨name, type, passing, value⟩ := p
    cases value with
    | none => exact ih (yields_emitDefaultValues_cons_none.1 hw)
    | some value =>
      obtain ⟨text, v, vs, -, -, hvs, rfl⟩ := yields_emitDefaultValues_cons_some.1 hw
      refine EndsLine.append ⟨'\n' :: List.replicate (n * g.config.indentWidth) ' ' ++ "if ".toList
        ++ text.toList ++ " == nil then ".toList ++ text.toList ++ " = ".toList ++ v
        ++ " end".toList, by simp⟩ (ih hvs)

theorem endsLine_emitLocals {locals : List Declaration} :
    ∀ {w}, Yields (emitLocals g locals) n () w → EndsLine w := by
  induction locals with
  | nil =>
    intro w hw
    rw [yields_emitLocals_nil.1 hw]
    exact endsLine_nil
  | cons declared locals ih =>
    intro w hw
    obtain ⟨v, vs, -, hvs, rfl⟩ := yields_emitLocals_cons.1 hw
    rw [List.append_cons]
    exact (endsLine_newline _).append (ih hvs)

theorem endsLine_emitLocals? {locals : Option (List Declaration)}
    (hw : Yields (emitLocals? g locals) n () w) : EndsLine w := by
  cases locals with
  | none =>
    rw [yields_emitLocals?_none.1 hw]
    exact endsLine_nil
  | some locals => exact endsLine_emitLocals hw

/-! ## Trees -/

theorem allPlaced_emitUnary {operator : Operator UnaryKind} {operand : Expr}
    (h : ∀ v, Yields (emitExpr g operand) n () v → AllPlaced g nodes v)
    (hw : Yields (emitUnary operator (emitExpr g operand)) n () w) : AllPlaced g nodes w := by
  match operator with
  | .standard .plus => exact h w hw
  | .standard .addressOf => exact absurd hw not_yields_emitUnary_addressOf
  | .standard .minus | .standard .not | .custom text =>
    obtain ⟨v, hv, rfl⟩ := yields_emitPrefixed.1 hw
    exact ((h v hv).append_left _).append_right _

theorem allPlaced_accessText_site {guarded : Bool} {guard : String} {operator : Char} {member : String}
    {site call : List Char} (h : AllPlaced g nodes site) :
    AllPlaced g nodes (accessText guarded guard operator member site call) := by
  cases guarded with
  | true => exact (h.append_left _).append_right _
  | false => exact (h.append_right _).append_right _

theorem allPlaced_accessText_call {guarded : Bool} {guard : String} {operator : Char} {member : String}
    {site call : List Char} (h : AllPlaced g nodes call) :
    AllPlaced g nodes (accessText guarded guard operator member site call) := by
  cases guarded with
  | true => exact (((h.append_left _).append_right _).append_right _).append_right _
  | false => exact h.append_left _

mutual

/-- The texts of all statements below an expression stand at the beginning of lines. -/
theorem allPlaced_emitExpr : ∀ (e : Expr) {n : Nat} {w : List Char},
    Yields (emitExpr g e) n () w → AllPlaced g e.rendered w
  | .shared _, _, _, _ => allPlaced_expression allPlaced_nil
  | .atom _, _, _, _ => allPlaced_expression allPlaced_nil
  | .array elements _, _, _, hw => by
    obtain ⟨v, hv, rfl⟩ := yields_emitExpr_array.1 hw
    exact allPlaced_expression (((allPlaced_emitExprs elements hv).cons _).append_right _)
  | .dictionary entries, _, _, hw => by
    obtain ⟨v, hv, rfl⟩ := yields_emitExpr_dictionary.1 hw
    exact allPlaced_expression (((allPlaced_emitEntries entries hv).cons _).append_right _)
  | .tuple elements, _, _, hw => by
    obtain ⟨v, hv, rfl⟩ := yields_emitExpr_tuple.1 hw
    exact allPlaced_expression (((allPlaced_emitExprs elements hv).cons _).append_right _)
  | .unary operator operand, _, _, hw =>
    allPlaced_expression (allPlaced_emitUnary (fun _ => allPlaced_emitExpr operand) hw)
  | .binary operator left right, _, _, hw => by
    obtain ⟨form, v₁, v₂, -, hv₁, hv₂, rfl⟩ := yields_emitExpr_binary.1 hw
    have hleft := (((allPlaced_emitExpr left hv₁).append_left form.opening.toList).append_right
      form.between.toList).append_right v₂
    have hright := (allPlaced_emitExpr right hv₂).append_left
      (form.opening.toList ++ v₁ ++ form.between.toList)
    exact allPlaced_expression ((allPlaced_append hleft hright).append_right _)
  | .field none _, _, _, _ => allPlaced_expression allPlaced_nil
  | .field (some site) _, _, _, hw => by
    obtain ⟨member, s, -, hs, rfl⟩ := yields_emitExpr_field_some.1 hw
    exact allPlaced_expression (allPlaced_accessText_site (allPlaced_emitExpr site hs))
  | .call none _ arguments _, _, _, hw => by
    obtain ⟨member, v, -, hv, rfl⟩ := yields_emitExpr_call_none.1 hw
    have harguments := ((allPlaced_emitArguments arguments hv).cons '(').append_left member.toList
    refine allPlaced_expression ?_
    split
    · exact allPlaced_append (harguments.append_right _) allPlaced_nil
    · exact allPlaced_append allPlaced_nil (harguments.append_right _)
  | .call (some site) _ arguments _, _, _, hw => by
    obtain ⟨member, v, s, -, hv, hs, rfl⟩ := yields_emitExpr_call_some.1 hw
    have hcall := ((allPlaced_emitArguments arguments hv).cons '(').append_right [')']
    have hsite := allPlaced_emitExpr site hs
    refine allPlaced_expression ?_
    split
    · exact allPlaced_append (allPlaced_accessText_call hcall) (allPlaced_accessText_site hsite)
    · exact allPlaced_append (allPlaced_accessText_site hsite) (allPlaced_accessText_call hcall)
  | .property none _ indices, _, _, hw => by
    obtain ⟨v, i, -, hi, rfl⟩ := yields_emitExpr_property.1 hw
    exact allPlaced_expression
      (allPlaced_append allPlaced_nil ((allPlaced_emitPropertyIndices indices hi).append_left _))
  | .property (some site) _ indices, _, _, hw => by
    obtain ⟨v, i, hv, hi, rfl⟩ := yields_emitExpr_property.1 hw
    obtain ⟨member, s, -, hs, rfl⟩ := yields_emitExpr_field_some.1 hv
    have hsite := allPlaced_emitExpr site hs
    have hindices := (allPlaced_emitPropertyIndices indices hi).append_left
    exact allPlaced_expression
      (allPlaced_append ((allPlaced_accessText_site hsite).append_right _) (hindices _))
  | .construct type constructor arguments [], _, _, hw => by
    obtain ⟨typeName, name, v, -, -, hv, rfl⟩ := yields_emitExpr_construct.1 hw
    have harguments := (allPlaced_emitArguments arguments hv).append_left (constructorText typeName name)
    exact allPlaced_expression (allPlaced_append (harguments.append_right _) allPlaced_nil)
  | .construct type constructor arguments (i :: is), _, _, hw => by
    obtain ⟨_, u, hcreation, hu, rfl⟩ := yields_emitExpr_construct_with.1 hw
    obtain ⟨typeName, name, v, -, -, hv, rfl⟩ := yields_emitExpr_construct.1 hcreation
    have harguments := ((allPlaced_emitArguments arguments hv).append_left
      (constructorText typeName name)).append_right [')']
    have hcreation := (harguments.append_left "(function() local o = ".toList).append_right u
    have hinitializers := (allPlaced_emitInitializers (i :: is) hu).append_left
      ("(function() local o = ".toList ++ (constructorText typeName name ++ v ++ [')']))
    exact allPlaced_expression ((allPlaced_append hcreation hinitializers).append_right _)
  | .allocate _ _ _ _, _, _, _ => allPlaced_expression allPlaced_nil
  | .element indexed indices, _, _, hw => by
    obtain ⟨v, i, hv, hi, rfl⟩ := yields_emitExpr_element.1 hw
    exact allPlaced_expression (allPlaced_append ((allPlaced_emitExpr indexed hv).append_right _)
      ((allPlaced_emitIndices indices hi).append_left _))
  | .wrapped .parentheses inner, _, _, hw => by
    obtain ⟨v, hv, rfl⟩ := yields_emitExpr_parentheses.1 hw
    exact allPlaced_expression (((allPlaced_emitExpr inner hv).cons _).append_right _)
  | .wrapped .typeOf inner, _, _, hw => by
    obtain ⟨v, hv, rfl⟩ := yields_emitExpr_typeOf.1 hw
    exact allPlaced_expression (((allPlaced_emitExpr inner hv).append_left _).append_right _)
  | .wrapped .sizeOf _, _, _, hw => absurd hw not_yields_refuse
  | .wrapped .dereference _, _, _, hw => absurd hw not_yields_refuse
  | .conditional condition consequence none, _, _, hw => by
    obtain ⟨v₁, v₂, hv₁, hv₂, rfl⟩ := yields_emitExpr_conditional_none.1 hw
    have hcondition := (((allPlaced_emitExpr condition hv₁).append_left
      "(function() if ".toList).append_right " then return ".toList).append_right v₂
    have hconsequence := (allPlaced_emitExpr consequence hv₂).append_left
      ("(function() if ".toList ++ v₁ ++ " then return ".toList)
    exact allPlaced_expression
      (allPlaced_append ((allPlaced_append hcondition hconsequence).append_right _) allPlaced_nil)
  | .conditional condition consequence (some alternative), _, _, hw => by
    obtain ⟨v₁, v₂, v₃, hv₁, hv₂, hv₃, rfl⟩ := yields_emitExpr_conditional_some.1 hw
    have hcondition := (((allPlaced_emitExpr condition hv₁).append_left
      "(function() if ".toList).append_right " then return ".toList).append_right v₂
    have hconsequence := (allPlaced_emitExpr consequence hv₂).append_left
      ("(function() if ".toList ++ v₁ ++ " then return ".toList)
    have hboth := ((allPlaced_append hcondition hconsequence).append_right
      " else return ".toList).append_right v₃
    have halternative := (allPlaced_emitExpr alternative hv₃).append_left
      ("(function() if ".toList ++ v₁ ++ " then return ".toList ++ v₂ ++ " else return ".toList)
    exact allPlaced_expression ((allPlaced_append hboth halternative).append_right _)
  | .cast value _ _ _, _, _, hw => allPlaced_expression (allPlaced_emitExpr value hw)
  | .assigned value _, _, _, hw => by
    obtain ⟨v, hv, rfl⟩ := yields_emitExpr_assigned.1 hw
    exact allPlaced_expression (((allPlaced_emitExpr value hv).cons _).append_right _)
  | .method _ parameters _ body locals, n, _, hw => by
    obtain ⟨v, d, l, b, -, hd, hl, hb, rfl⟩ := yields_emitExpr_method.1 hw
    -- The body begins behind the line of the parameters or behind the line of a default or a local.
    have hdefaults := (allPlaced_emitDefaultValues parameters hd).append_right (l ++ b)
    have hlocals := ((allPlaced_emitLocals? locals hl).append_right b).append_left d
    have hbody := ((allPlaced_emitStatements body hb).behind (endsLine_emitLocals? hl)).behind
      (endsLine_emitDefaultValues hd)
    have hall := allPlaced_append (allPlaced_append (hdefaults.cons '\n') (hlocals.cons '\n')) hbody
    have hplaced := (((hall.append_left ("function(".toList ++ v ++ [')'])).append_right
      (List.replicate (n * g.config.indentWidth) ' ')).append_right "end".toList)
    refine allPlaced_expression ?_
    simpa using hplaced
  | .anonymousType _ _, _, _, hw => absurd hw not_yields_refuse

theorem allPlaced_emitExprs : ∀ (es : List Expr) {isFirst : Bool} {n : Nat} {w : List Char},
    Yields (emitExprs g isFirst es) n () w → AllPlaced g (renderedExprs es) w
  | [], _, _, _, _ => allPlaced_nil
  | e :: es, isFirst, _, _, hw => by
    obtain ⟨v, vs, hv, hvs, rfl⟩ := yields_emitExprs_cons.1 hw
    have he := (allPlaced_emitExpr e hv).append_left (comma isFirst)
    exact allPlaced_append (he.append_right _) ((allPlaced_emitExprs es hvs).append_left _)

theorem allPlaced_emitEntries : ∀ (entries : List (Expr × Expr)) {isFirst : Bool} {n : Nat}
    {w : List Char}, Yields (emitEntries g isFirst entries) n () w →
      AllPlaced g (renderedEntries entries) w
  | [], _, _, _, _ => allPlaced_nil
  | (key, value) :: entries, isFirst, _, _, hw => by
    obtain ⟨k, v, vs, hk, hv, hvs, rfl⟩ := yields_emitEntries_cons.1 hw
    have hkey := ((((allPlaced_emitExpr key hk).cons '[').append_left (comma isFirst)).append_right
      "] = ".toList).append_right v
    have hvalue := (allPlaced_emitExpr value hv).append_left (comma isFirst ++ '[' :: k ++ "] = ".toList)
    exact allPlaced_append ((allPlaced_append hkey hvalue).append_right _)
      ((allPlaced_emitEntries entries hvs).append_left _)

theorem allPlaced_emitArguments : ∀ (arguments : List Argument) {isFirst : Bool} {n : Nat}
    {w : List Char}, Yields (emitArguments g isFirst arguments) n () w →
      AllPlaced g (renderedArguments arguments) w
  | [], _, _, _, _ => allPlaced_nil
  | ⟨_, value, _⟩ :: arguments, isFirst, _, _, hw => by
    obtain ⟨-, v, vs, hv, hvs, rfl⟩ := yields_emitArguments_cons.1 hw
    have hvalue := (allPlaced_emitExpr value hv).append_left (comma isFirst)
    exact allPlaced_append (hvalue.append_right _) ((allPlaced_emitArguments arguments hvs).append_left _)

theorem allPlaced_emitPropertyIndices : ∀ (indices : List Argument) {n : Nat} {w : List Char},
    Yields (emitPropertyIndices g indices) n () w → AllPlaced g (renderedArguments indices) w
  | [], _, _, _ => allPlaced_nil
  | ⟨_, value, _⟩ :: indices, _, _, hw => by
    obtain ⟨-, v, vs, hv, hvs, rfl⟩ := yields_emitPropertyIndices_cons.1 hw
    have hrest := (allPlaced_emitPropertyIndices indices hvs).cons ']'
    exact allPlaced_append (((allPlaced_emitExpr value hv).cons _).append_right _) (hrest.append_left _)

theorem allPlaced_emitIndices : ∀ (indices : List Expr) {n : Nat} {w : List Char},
    Yields (emitIndices g indices) n () w → AllPlaced g (renderedExprs indices) w
  | [], _, _, _ => allPlaced_nil
  | index :: indices, _, _, hw => by
    obtain ⟨v, vs, hv, hvs, rfl⟩ := yields_emitIndices_cons.1 hw
    have hrest := (allPlaced_emitIndices indices hvs).cons ']'
    exact allPlaced_append (((allPlaced_emitExpr index hv).cons _).append_right _) (hrest.append_left _)

theorem allPlaced_emitInitializers : ∀ (initializers : List Argument) {n : Nat} {w : List Char},
    Yields (emitInitializers g initializers) n () w → AllPlaced g (renderedArguments initializers) w
  | [], _, _, _ => allPlaced_nil
  | ⟨_, value, _⟩ :: initializers, _, _, hw => by
    obtain ⟨symbol, property, v, vs, -, -, hv, hvs, rfl⟩ := yields_emitInitializers_cons.1 hw
    have hvalue := (allPlaced_emitExpr value hv).append_left
      ("; o.".toList ++ property.toList ++ " = ".toList)
    exact allPlaced_append (hvalue.append_right _)
      ((allPlaced_emitInitializers initializers hvs).append_left _)

theorem allPlaced_emitDefaultValues : ∀ (parameters : List Parameter) {n : Nat} {w : List Char},
    Yields (emitDefaultValues g parameters) n () w → AllPlaced g (renderedDefaults parameters) w
  | [], _, _, _ => allPlaced_nil
  | ⟨_, _, _, none⟩ :: parameters, _, _, hw =>
    allPlaced_append allPlaced_nil
      (allPlaced_emitDefaultValues parameters (yields_emitDefaultValues_cons_none.1 hw))
  | ⟨_, _, _, some value⟩ :: parameters, _, _, hw => by
    obtain ⟨text, v, vs, -, hv, hvs, rfl⟩ := yields_emitDefaultValues_cons_some.1 hw
    exact allPlaced_append
      ((((allPlaced_emitExpr value hv).append_left _).append_right _).append_right _)
      ((allPlaced_emitDefaultValues parameters hvs).append_left _)

theorem allPlaced_emitLocal : ∀ (declared : Declaration) {n : Nat} {w : List Char},
    Yields (emitLocal g declared) n () w → AllPlaced g (renderedExpr? declared.value) w
  | ⟨_, _, none, _⟩, _, _, _ => allPlaced_nil
  | ⟨_, _, some value, _⟩, _, _, hw => by
    obtain ⟨text, v, -, hv, rfl⟩ := yields_emitLocal_some.1 hw
    exact (allPlaced_emitExpr value hv).append_left _

theorem allPlaced_emitLocals : ∀ (locals : List Declaration) {n : Nat} {w : List Char},
    Yields (emitLocals g locals) n () w → AllPlaced g (renderedLocals locals) w
  | [], _, _, _ => allPlaced_nil
  | ⟨name, type, value, constant⟩ :: locals, _, _, hw => by
    obtain ⟨v, vs, hv, hvs, rfl⟩ := yields_emitLocals_cons.1 hw
    have hlocal := allPlaced_emitLocal ⟨name, type, value, constant⟩ hv
    have hrest := (allPlaced_emitLocals locals hvs).cons '\n'
    exact allPlaced_append ((hlocal.append_left _).append_right _) (hrest.append_left _)

theorem allPlaced_emitLocals? : ∀ (locals : Option (List Declaration)) {n : Nat} {w : List Char},
    Yields (emitLocals? g locals) n () w → AllPlaced g (renderedLocals? locals) w
  | none, _, _, _ => allPlaced_nil
  | some locals, _, _, hw => allPlaced_emitLocals locals hw

/-- The text of a statement and those of all statements below it stand at the beginning of lines. -/
theorem allPlaced_emitStatement : ∀ (s : Statement) {n : Nat} {w : List Char},
    Yields (emitStatement g s) n () w → AllPlaced g s.rendered ('\n' :: w)
  | .expression value, _, _, hw => by
    refine allPlaced_statement rfl hw (AllPlaced.cons ?_ '\n')
    obtain ⟨-, v, hv, rfl⟩ := yields_emitStatement_expression.1 hw
    exact ((allPlaced_emitExpr value hv).append_left _).append_right _
  | .declaration ⟨name, type, value, constant⟩, _, _, hw => by
    refine allPlaced_statement rfl hw (AllPlaced.cons ?_ '\n')
    obtain ⟨v, hv, rfl⟩ := yields_emitStatement_declaration.1 hw
    exact ((allPlaced_emitLocal ⟨name, type, value, constant⟩ hv).append_left _).append_right _
  | .assignment target value, n, _, hw => by
    refine allPlaced_statement rfl hw (AllPlaced.cons ?_ '\n')
    obtain ⟨t, v, ht, hv, rfl⟩ := yields_emitStatement_assignment.1 hw
    have htarget := (((allPlaced_emitExpr target ht).append_left
      (List.replicate (n * g.config.indentWidth) ' ')).append_right " = ".toList).append_right v
    exact (allPlaced_append htarget ((allPlaced_emitExpr value hv).append_left _)).append_right _
  | .result none, _, _, hw => allPlaced_statement rfl hw allPlaced_nil
  | .result (some value), _, _, hw => by
    refine allPlaced_statement rfl hw (AllPlaced.cons ?_ '\n')
    obtain ⟨v, hv, rfl⟩ := yields_emitStatement_result_some.1 hw
    exact ((allPlaced_emitExpr value hv).append_left _).append_right _
  | .block body, n, _, hw => by
    refine allPlaced_statement rfl hw (AllPlaced.cons ?_ '\n')
    obtain ⟨b, hb, rfl⟩ := yields_emitStatement_block.1 hw
    have hbody := (allPlaced_emitStatements body hb).append_left
      (List.replicate (n * g.config.indentWidth) ' ' ++ "do".toList)
    have hplaced := (hbody.append_right (List.replicate (n * g.config.indentWidth) ' ')).append_right
      "end\n".toList
    simpa using hplaced

/-- The texts of all statements of a list and below it stand at the beginning of lines. -/
theorem allPlaced_emitStatements : ∀ (statements : List Statement) {n : Nat} {w : List Char},
    Yields (emitStatements g statements) n () w →
      AllPlaced g (renderedStatements statements) ('\n' :: w)
  | [], _, _, _ => allPlaced_nil
  | s :: statements, _, _, hw => by
    obtain ⟨v, vs, hv, hvs, rfl⟩ := yields_emitStatements_cons.1 hw
    exact allPlaced_append ((allPlaced_emitStatement s hv).append_right vs)
      ((allPlaced_emitStatements statements hvs).behind (endsLine_emitStatement hv))

end

end CodeTree.Lua
