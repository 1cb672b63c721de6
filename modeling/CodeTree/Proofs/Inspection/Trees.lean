import CodeTree.Proofs.Equality.Structure
import CodeTree.Proofs.Inspection.Leaves
import CodeTree.Proofs.Variants.Revision

/-! # Debug texts of trees

The text of a tree is read from its front: the mark of a shared reference, the name of the node's kind, and
what the node holds, part by part. So a text is that of one tree only, but for NaNs.

* `Expr.Kind`: what can be seen of a node before its parts.
* `Revision.oneNaN`: a tree with one NaN for all NaNs.
* `tells_expr`, `tells_statement`: the texts of trees. -/

namespace CodeTree

set_option autoImplicit false

/-- One NaN for all NaNs. -/
def Revision.oneNaN : Revision where
  atom := Atom.oneNaN

namespace Revision

@[simp] theorem atom_oneNaN (a : Atom) : oneNaN.atom a = a.oneNaN := rfl

@[simp] theorem argumentName_oneNaN : oneNaN.argumentName = id := rfl

@[simp] theorem initializerName_oneNaN : oneNaN.initializerName = id := rfl

@[simp] theorem keepsAllocation_oneNaN : oneNaN.keepsAllocation = true := rfl

end Revision

/-- What can be seen of an expression before its parts: whether it is a shared reference, and else the name
of its kind, but for the names of atoms. -/
inductive Expr.Kind
  | shared
  | atom
  | array
  | dictionary
  | tuple
  | unary
  | binary
  | field
  | call
  | property
  | creation
  | element
  | wrapped (wrapper : Wrapper)
  | conditional
  | cast
  | assigned
  | method
  | anonymousType

namespace Expr

def kind : Expr → Kind
  | .shared _ => .shared
  | .atom _ => .atom
  | .array _ _ => .array
  | .dictionary _ => .dictionary
  | .tuple _ => .tuple
  | .unary _ _ => .unary
  | .binary _ _ _ => .binary
  | .field _ _ => .field
  | .call _ _ _ _ => .call
  | .property _ _ _ => .property
  | .construct _ _ _ _ => .creation
  | .allocate _ _ _ _ => .creation
  | .element _ _ => .element
  | .wrapped wrapper _ => .wrapped wrapper
  | .conditional _ _ _ => .conditional
  | .cast _ _ _ _ => .cast
  | .assigned _ _ => .assigned
  | .method _ _ _ _ _ => .method
  | .anonymousType _ _ => .anonymousType

/-- The kind of a node that is not shared, by its name. -/
def Kind.ofName : String → Kind
  | "ArrayLiteral" => .array
  | "DictionaryLiteral" => .dictionary
  | "TupleLiteral" => .tuple
  | "UnaryOperator" => .unary
  | "BinaryOperator" => .binary
  | "FieldAccess" => .field
  | "MethodCall" => .call
  | "PropertyAccess" => .property
  | "NewInstance" => .creation
  | "ArrayElementAccess" => .element
  | "Parentheses" => .wrapped .parentheses
  | "SizeOf" => .wrapped .sizeOf
  | "TypeOf" => .wrapped .typeOf
  | "PointerDereference" => .wrapped .dereference
  | "IfThenElse" => .conditional
  | "TypeCast" => .cast
  | "Assigned" => .assigned
  | "AnonymousMethod" => .method
  | "AnonymousType" => .anonymousType
  | _ => .atom

theorem ofName_variant {e : Expr} (h : e.isShared = false) : Kind.ofName e.variant = e.kind := by
  cases e with
  | shared s => exact absurd h (by simp [isShared, sentinel?])
  | atom a => cases a <;> rfl
  | wrapped wrapper inner => cases wrapper <;> rfl
  | _ => rfl

theorem kind_of_isShared {e : Expr} (h : e.isShared = true) : e.kind = .shared := by
  cases e with
  | shared s => rfl
  | _ => exact absurd h (by simp [isShared, sentinel?])

theorem isWord_variant (e : Expr) : Inspect.IsWord e.variant := by
  cases e with
  | shared s => exact Inspect.isWord_variant_atom s.atom
  | atom a => exact Inspect.isWord_variant_atom a
  | wrapped wrapper inner => cases wrapper <;> exact Inspect.isWord_ofList rfl
  | _ => exact Inspect.isWord_ofList rfl

end Expr

namespace Inspect

variable {a b : Expr} {o o' : Option String} {p : Prop}

/-! ## Slots -/

theorem named_owned (h : a.isShared = false) (o : Option String) :
    Named (a.inspectAround o) a.variant := by
  rw [Expr.inspectAround, h, sharingMark, if_neg (by decide), String.empty_append]
  exact named_assemble a.isWord_variant o

theorem head?_shared (h : a.isShared = true) (o : Option String) :
    (a.inspectAround o).toList.head? = some '&' := by
  rw [Expr.inspectAround, h]
  simp [sharingMark]

/-- The mark stands in front of shared references only. -/
theorem head?_inspectAround (a : Expr) (o : Option String) :
    (a.inspectAround o).toList.head? = some '&' ↔ a.isShared = true := by
  refine ⟨fun hhead => ?_, fun h => head?_shared h o⟩
  by_contra hshared
  obtain ⟨c, hc, hword⟩ := (named_owned (Bool.eq_false_of_not_eq_true hshared) o).exists_head
  rw [hhead] at hc
  obtain rfl := Option.some.inj hc
  exact absurd hword (by decide)

theorem opens_inspectAround (a : Expr) (o : Option String) : Opens (a.inspectAround o) := by
  cases h : a.isShared with
  | true => exact ⟨'&', head?_shared h o, by decide⟩
  | false => exact (named_owned h o).opens

/-- Expressions of different kinds do not read the same. -/
theorem tells_of_kind_ne (h : a.kind ≠ b.kind) :
    Tells (a.inspectAround o) (b.inspectAround o') p := by
  have hmark {e : Expr} (he : e.isShared = false) (o : Option String) :
      ∃ c, (e.inspectAround o).toList.head? = some c ∧ c ≠ '&' := by
    obtain ⟨c, hc, hword⟩ := (named_owned he o).exists_head
    refine ⟨c, hc, ?_⟩
    rintro rfl
    exact absurd hword (by decide)
  cases ha : a.isShared <;> cases hb : b.isShared
  · refine .of_name_ne (named_owned ha o) (named_owned hb o') fun hname => h ?_
    rw [← Expr.ofName_variant ha, hname, Expr.ofName_variant hb]
  · obtain ⟨c, hc, hne⟩ := hmark ha o
    exact .of_head_ne hc (head?_shared hb o') hne
  · obtain ⟨c, hc, hne⟩ := hmark hb o'
    exact .of_head_ne (head?_shared ha o) hc hne.symm
  · exact absurd ((Expr.kind_of_isShared ha).trans (Expr.kind_of_isShared hb).symm) h

/-- What nodes of one name hold is told if it is told by itself. -/
theorem tells_same {u v : String} (hshared : a.isShared = b.isShared)
    (hvariant : a.variant = b.variant) (h : Tells u v p) :
    Tells (a.inspectAround (some u)) (b.inspectAround (some v)) p := by
  rw [Expr.inspectAround, Expr.inspectAround, hshared, hvariant]
  exact h.tagged.after _

theorem tells_shared (s t : Sentinel) :
    Tells ((Expr.shared s).inspectAround s.atom.contents?)
      ((Expr.shared t).inspectAround t.atom.contents?) (s = t) := by
  have hnumber (s : Sentinel) : s.atom.oneNaN = s.atom := by cases s <;> rfl
  refine ((tells_atom s.atom t.atom).after "&").mono fun heq => ?_
  rw [hnumber, hnumber] at heq
  have hequal := s.atom_equal t
  rw [heq, t.atom_equal t] at hequal
  simpa using hequal.symm

/-! ## Lists open -/

theorem opens_exprs (es : List Expr) : ∀ u ∈ inspectExprs es, Opens u := by
  rw [inspectExprs_eq_map]
  exact List.forall_mem_map.2 fun e _ => opens_inspectAround e _

theorem opens_entries (entries : List (Expr × Expr)) : ∀ u ∈ inspectEntries entries, Opens u := by
  induction entries with
  | nil => exact List.forall_mem_nil _
  | cons entry entries ih => exact List.forall_mem_cons.2 ⟨⟨'(', by simp [pair], by decide⟩, ih⟩

theorem opens_arguments (arguments : List Argument) :
    ∀ u ∈ inspectArguments arguments, Opens u := by
  rw [inspectArguments_eq_map]
  exact List.forall_mem_map.2 fun _ _ => (named_callParameter _ _ _).opens

theorem opens_parameters (parameters : List Parameter) :
    ∀ u ∈ inspectParameters parameters, Opens u := by
  induction parameters with
  | nil => exact List.forall_mem_nil _
  | cons parameter parameters ih =>
    cases parameter
    exact List.forall_mem_cons.2 ⟨(named_parameterDefinition _ _ _ _).opens, ih⟩

theorem opens_locals (locals : List Declaration) : ∀ u ∈ inspectLocals locals, Opens u := by
  induction locals with
  | nil => exact List.forall_mem_nil _
  | cons declared locals ih =>
    cases declared
    exact List.forall_mem_cons.2 ⟨(named_variableDeclaration _ _ _ _).opens, ih⟩

theorem named_member : ∀ m : Member, Named m.inspect m.variant
  | .field ⟨_, _, _, _⟩ => named_tagged (isWord_ofList rfl) _
  | .method _ _ _ _ => named_tagged (isWord_ofList rfl) _

theorem opens_members (members : List Member) : ∀ u ∈ inspectMembers members, Opens u := by
  induction members with
  | nil => exact List.forall_mem_nil _
  | cons m members ih => exact List.forall_mem_cons.2 ⟨(named_member m).opens, ih⟩

theorem named_statement : ∀ s : Statement, Named s.inspect s.variant
  | .expression _ => named_tagged (isWord_ofList rfl) _
  | .declaration ⟨_, _, _, _⟩ => named_tagged (isWord_ofList rfl) _
  | .assignment _ _ => named_record (isWord_ofList rfl) _
  | .result _ => named_tagged (isWord_ofList rfl) _
  | .block _ => named_tagged (isWord_ofList rfl) _

theorem opens_statements (statements : List Statement) :
    ∀ u ∈ inspectStatements statements, Opens u := by
  induction statements with
  | nil => exact List.forall_mem_nil _
  | cons s statements ih => exact List.forall_mem_cons.2 ⟨(named_statement s).opens, ih⟩

/-! ## Trees -/

mutual

/-- The text of an expression tells the expression, but for NaNs. -/
theorem tells_expr : ∀ a b : Expr, Tells (a.inspectAround a.contents?) (b.inspectAround b.contents?)
    (a.revise .oneNaN = b.revise .oneNaN)
  | .shared s, b => by
    cases b with
    | shared t => exact (tells_shared s t).mono fun heq => by rw [heq]
    | _ => exact tells_of_kind_ne nofun
  | .atom a, b => by
    cases b with
    | atom b => exact ((tells_atom a b).after "").mono fun heq => congrArg Expr.atom heq
    | _ => exact tells_of_kind_ne nofun
  | .array elements kind, b => by
    cases b with
    | array elements' kind' =>
      have helements := (tells_exprs elements elements').list (opens_exprs _) (opens_exprs _)
      have hkind := tells_arrayKind kind kind'
      refine (tells_same rfl rfl (helements.field (hkind.field .nil)).record).mono ?_
      rintro ⟨helements, rfl, -⟩
      rw [Expr.revise, Expr.revise, helements]
    | _ => exact tells_of_kind_ne nofun
  | .dictionary entries, b => by
    cases b with
    | dictionary entries' =>
      have hentries := (tells_entries entries entries').list (opens_entries _) (opens_entries _)
      refine (tells_same rfl rfl (hentries.field .nil).record).mono ?_
      rintro ⟨hentries, -⟩
      rw [Expr.revise, Expr.revise, hentries]
    | _ => exact tells_of_kind_ne nofun
  | .tuple elements, b => by
    cases b with
    | tuple elements' =>
      have helements := (tells_exprs elements elements').list (opens_exprs _) (opens_exprs _)
      refine (tells_same rfl rfl (helements.field .nil).record).mono ?_
      rintro ⟨helements, -⟩
      rw [Expr.revise, Expr.revise, helements]
    | _ => exact tells_of_kind_ne nofun
  | .unary operator operand, b => by
    cases b with
    | unary operator' operand' =>
      have hoperand := tells_expr operand operand'
      have hoperator := tells_operator tells_unaryKind operator operator'
      refine (tells_same rfl rfl (hoperand.field (hoperator.field .nil)).record).mono ?_
      rintro ⟨hoperand, rfl, -⟩
      rw [Expr.revise, Expr.revise, hoperand]
    | _ => exact tells_of_kind_ne nofun
  | .binary operator left right, b => by
    cases b with
    | binary operator' left' right' =>
      have hleft := tells_expr left left'
      have hright := tells_expr right right'
      have hoperator := tells_operator tells_binaryKind operator operator'
      refine (tells_same rfl rfl
        (hleft.field (hright.field (hoperator.field .nil))).record).mono ?_
      rintro ⟨hleft, hright, rfl, -⟩
      rw [Expr.revise, Expr.revise, hleft, hright]
    | _ => exact tells_of_kind_ne nofun
  | .field site selection, b => by
    cases b with
    | field site' selection' =>
      have haccess := tells_memberAccess (tells_expr? site site') selection selection'
      refine (tells_same rfl rfl (haccess.field .nil).record).mono ?_
      rintro ⟨⟨hsite, rfl⟩, -⟩
      exact congrArg (Expr.field · selection) hsite
    | _ => exact tells_of_kind_ne nofun
  | .call site selection arguments optional, b => by
    cases b with
    | call site' selection' arguments' optional' =>
      have haccess := tells_memberAccess (tells_expr? site site') selection selection'
      have harguments :=
        (tells_arguments arguments arguments').list (opens_arguments _) (opens_arguments _)
      have hoptional := tells_bool optional optional'
      refine (tells_same rfl rfl
        (haccess.field (harguments.field (hoptional.field .nil))).record).mono ?_
      rintro ⟨⟨hsite, rfl⟩, harguments, rfl, -⟩
      exact congrArg₂ (Expr.call · selection · optional) hsite harguments
    | _ => exact tells_of_kind_ne nofun
  | .property site selection indices, b => by
    cases b with
    | property site' selection' indices' =>
      have haccess := tells_memberAccess (tells_expr? site site') selection selection'
      have hindices := (tells_arguments indices indices').list (opens_arguments _) (opens_arguments _)
      refine (tells_same rfl rfl (haccess.field (hindices.field .nil)).record).mono ?_
      rintro ⟨⟨hsite, rfl⟩, hindices, -⟩
      exact congrArg₂ (Expr.property · selection ·) hsite hindices
    | _ => exact tells_of_kind_ne nofun
  | .construct type constructor arguments initializers, b => by
    have hinitializers (initializers' : List Argument) :=
      (tells_arguments initializers initializers').list (opens_arguments _) (opens_arguments _)
    cases b with
    | construct type' constructor' arguments' initializers' =>
      have harguments :=
        (tells_arguments arguments arguments').list (opens_arguments _) (opens_arguments _)
      refine (tells_same rfl rfl (tells_newInstance type type' constructor constructor'
        harguments.tagged (hinitializers initializers'))).mono ?_
      rintro ⟨rfl, rfl, harguments, hinitializers⟩
      exact congrArg₂ (Expr.construct type constructor · ·) harguments hinitializers
    | allocate type' constructor' bounds initializers' =>
      refine (tells_same rfl rfl (tells_newInstance type type' constructor constructor' (p := False)
        ?_ (hinitializers initializers'))).mono fun h => h.2.2.1.elim
      exact .of_name_ne (named_tagged (isWord_ofList rfl) _) (named_tagged (isWord_ofList rfl) _)
        (show "Constructor" ≠ "ArrayBounds" by decide)
    | _ => exact tells_of_kind_ne nofun
  | .allocate type constructor bounds initializers, b => by
    have hinitializers (initializers' : List Argument) :=
      (tells_arguments initializers initializers').list (opens_arguments _) (opens_arguments _)
    cases b with
    | construct type' constructor' arguments initializers' =>
      refine (tells_same rfl rfl (tells_newInstance type type' constructor constructor' (p := False)
        ?_ (hinitializers initializers'))).mono fun h => h.2.2.1.elim
      exact .of_name_ne (named_tagged (isWord_ofList rfl) _) (named_tagged (isWord_ofList rfl) _)
        (show "ArrayBounds" ≠ "Constructor" by decide)
    | allocate type' constructor' bounds' initializers' =>
      have hbounds := (tells_exprs bounds bounds').list (opens_exprs _) (opens_exprs _)
      refine (tells_same rfl rfl (tells_newInstance type type' constructor constructor'
        hbounds.tagged (hinitializers initializers'))).mono ?_
      rintro ⟨rfl, rfl, hbounds, hinitializers⟩
      exact congrArg₂ (Expr.allocate type constructor · ·) hbounds hinitializers
    | _ => exact tells_of_kind_ne nofun
  | .element array indices, b => by
    cases b with
    | element array' indices' =>
      have harray := tells_expr array array'
      have hindices := (tells_exprs indices indices').list (opens_exprs _) (opens_exprs _)
      refine (tells_same rfl rfl (harray.field (hindices.field .nil)).record).mono ?_
      rintro ⟨harray, hindices, -⟩
      rw [Expr.revise, Expr.revise, harray, hindices]
    | _ => exact tells_of_kind_ne nofun
  | .wrapped wrapper inner, b => by
    cases b with
    | wrapped wrapper' inner' =>
      by_cases hwrapper : wrapper = wrapper'
      · subst hwrapper
        refine (tells_same rfl rfl (tells_expr inner inner')).mono fun hinner => ?_
        rw [Expr.revise, Expr.revise, hinner]
      · exact tells_of_kind_ne fun hkind => hwrapper (Expr.Kind.wrapped.inj hkind)
    | _ => exact tells_of_kind_ne nofun
  | .conditional condition consequence alternative, b => by
    cases b with
    | conditional condition' consequence' alternative' =>
      have hcondition := tells_expr condition condition'
      have hconsequence := tells_expr consequence consequence'
      have halternative := (tells_expr? alternative alternative').option
      refine (tells_same rfl rfl
        (hcondition.field (hconsequence.field (halternative.field .nil))).record).mono ?_
      rintro ⟨hcondition, hconsequence, halternative, -⟩
      rw [Expr.revise, Expr.revise, hcondition, hconsequence, halternative]
    | _ => exact tells_of_kind_ne nofun
  | .cast value type throwing safe, b => by
    cases b with
    | cast value' type' throwing' safe' =>
      have hvalue := tells_expr value value'
      refine (tells_same rfl rfl (hvalue.field ((tells_type type type').field
        ((tells_bool throwing throwing').field
          ((tells_bool safe safe').field .nil)))).record).mono ?_
      rintro ⟨hvalue, rfl, rfl, rfl, -⟩
      rw [Expr.revise, Expr.revise, hvalue]
    | _ => exact tells_of_kind_ne nofun
  | .assigned value inverted, b => by
    cases b with
    | assigned value' inverted' =>
      have hvalue := tells_expr value value'
      have hinverted := tells_bool inverted inverted'
      refine (tells_same rfl rfl (hvalue.field (hinverted.field .nil)).record).mono ?_
      rintro ⟨hvalue, rfl, -⟩
      rw [Expr.revise, Expr.revise, hvalue]
    | _ => exact tells_of_kind_ne nofun
  | .method lambda parameters returns body locals, b => by
    cases b with
    | method lambda' parameters' returns' body' locals' =>
      have hparameters :=
        (tells_parameters parameters parameters').list (opens_parameters _) (opens_parameters _)
      have hbody := (tells_statements body body').list (opens_statements _) (opens_statements _)
      have hlocals := (tells_locals? locals locals').option
      refine (tells_same rfl rfl ((tells_bool lambda lambda').field (hparameters.field
        ((tells_type? returns returns').field (hbody.field (hlocals.field .nil))))).record).mono ?_
      rintro ⟨rfl, hparameters, rfl, hbody, hlocals, -⟩
      rw [Expr.revise, Expr.revise, hparameters, hbody, hlocals]
    | _ => exact tells_of_kind_ne nofun
  | .anonymousType kind members, b => by
    cases b with
    | anonymousType kind' members' =>
      have hmembers := (tells_members members members').list (opens_members _) (opens_members _)
      have hkind := tells_aggregateKind kind kind'
      refine (tells_same rfl rfl (hkind.field (hmembers.field .nil)).record).mono ?_
      rintro ⟨rfl, hmembers, -⟩
      rw [Expr.revise, Expr.revise, hmembers]
    | _ => exact tells_of_kind_ne nofun
termination_by structural x => x

theorem tells_expr? : ∀ a b : Option Expr, TellsOption (inspectExpr? a) (inspectExpr? b)
    (reviseExpr? .oneNaN a = reviseExpr? .oneNaN b)
  | none, none => rfl
  | none, some _ => trivial
  | some _, none => trivial
  | some a, some b => (tells_expr a b).mono fun heq => congrArg some heq
termination_by structural x => x

theorem tells_exprs : ∀ xs ys : List Expr, TellsAll (inspectExprs xs) (inspectExprs ys)
    (reviseExprs .oneNaN xs = reviseExprs .oneNaN ys)
  | [], [] => .nil rfl
  | [], _ :: _ => .nil_cons
  | _ :: _, [] => .cons_nil
  | x :: xs, y :: ys => by
    refine (TellsAll.cons (tells_expr x y) (tells_exprs xs ys)).mono ?_
    rintro ⟨hx, hxs⟩
    rw [reviseExprs, reviseExprs, hx, hxs]
termination_by structural x => x

theorem tells_entries : ∀ xs ys : List (Expr × Expr), TellsAll (inspectEntries xs) (inspectEntries ys)
    (reviseEntries .oneNaN xs = reviseEntries .oneNaN ys)
  | [], [] => .nil rfl
  | [], (_, _) :: _ => .nil_cons
  | (_, _) :: _, [] => .cons_nil
  | (key, value) :: xs, (key', value') :: ys => by
    have hentry := (tells_expr key key').pair (tells_expr value value')
    refine (TellsAll.cons hentry (tells_entries xs ys)).mono ?_
    rintro ⟨⟨hkey, hvalue⟩, hxs⟩
    rw [reviseEntries, reviseEntries, hkey, hvalue, hxs]
termination_by structural x => x

theorem tells_arguments : ∀ xs ys : List Argument,
    TellsAll (inspectArguments xs) (inspectArguments ys)
      (reviseArguments .oneNaN id xs = reviseArguments .oneNaN id ys)
  | [], [] => .nil rfl
  | [], ⟨_, _, _⟩ :: _ => .nil_cons
  | ⟨_, _, _⟩ :: _, [] => .cons_nil
  | ⟨name, value, passing⟩ :: xs, ⟨name', value', passing'⟩ :: ys => by
    have hargument := tells_callParameter name name' passing passing' (tells_expr value value')
    refine (TellsAll.cons hargument (tells_arguments xs ys)).mono ?_
    rintro ⟨⟨rfl, hvalue, rfl⟩, hxs⟩
    rw [reviseArguments, reviseArguments, hvalue, hxs]
termination_by structural x => x

theorem tells_parameters : ∀ xs ys : List Parameter,
    TellsAll (inspectParameters xs) (inspectParameters ys)
      (reviseParameters .oneNaN xs = reviseParameters .oneNaN ys)
  | [], [] => .nil rfl
  | [], ⟨_, _, _, _⟩ :: _ => .nil_cons
  | ⟨_, _, _, _⟩ :: _, [] => .cons_nil
  | ⟨name, type, passing, value⟩ :: xs, ⟨name', type', passing', value'⟩ :: ys => by
    have hparameter := tells_parameterDefinition name name' type type' passing passing'
      (tells_expr? value value')
    refine (TellsAll.cons hparameter (tells_parameters xs ys)).mono ?_
    rintro ⟨⟨rfl, rfl, rfl, hvalue⟩, hxs⟩
    rw [reviseParameters, reviseParameters, hvalue, hxs]
termination_by structural x => x

theorem tells_locals : ∀ xs ys : List Declaration, TellsAll (inspectLocals xs) (inspectLocals ys)
    (reviseLocals .oneNaN xs = reviseLocals .oneNaN ys)
  | [], [] => .nil rfl
  | [], ⟨_, _, _, _⟩ :: _ => .nil_cons
  | ⟨_, _, _, _⟩ :: _, [] => .cons_nil
  | ⟨name, type, value, constant⟩ :: xs, ⟨name', type', value', constant'⟩ :: ys => by
    have hdeclared := tells_variableDeclaration name name' type type' constant constant'
      (tells_expr? value value')
    refine (TellsAll.cons hdeclared (tells_locals xs ys)).mono ?_
    rintro ⟨⟨rfl, rfl, hvalue, rfl⟩, hxs⟩
    rw [reviseLocals, reviseLocals, Declaration.revise, Declaration.revise, hvalue, hxs]
termination_by structural x => x

theorem tells_locals? : ∀ a b : Option (List Declaration),
    TellsOption (inspectLocals? a) (inspectLocals? b)
      (reviseLocals? .oneNaN a = reviseLocals? .oneNaN b)
  | none, none => rfl
  | none, some _ => trivial
  | some _, none => trivial
  | some xs, some ys =>
    ((tells_locals xs ys).list (opens_locals xs) (opens_locals ys)).mono fun heq => congrArg some heq
termination_by structural x => x

theorem tells_member : ∀ a b : Member, Tells a.inspect b.inspect (a.revise .oneNaN = b.revise .oneNaN)
  | .field ⟨name, type, value, constant⟩, .field ⟨name', type', value', constant'⟩ => by
    have hdeclared := tells_fieldDefinition name name' type type' constant constant'
      (tells_expr? value value')
    refine hdeclared.tagged.mono ?_
    rintro ⟨rfl, rfl, hvalue, rfl⟩
    rw [Member.revise, Member.revise, Declaration.revise, Declaration.revise, hvalue]
  | .field d, .method name parameters returns body =>
    .of_name_ne (named_member (.field d)) (named_member (.method name parameters returns body))
      (by simp [Member.variant])
  | .method name parameters returns body, .field d =>
    .of_name_ne (named_member (.method name parameters returns body)) (named_member (.field d))
      (by simp [Member.variant])
  | .method name parameters returns body, .method name' parameters' returns' body' => by
    have hparameters :=
      (tells_parameters parameters parameters').list (opens_parameters _) (opens_parameters _)
    have hbody := (tells_statements body body').list (opens_statements _) (opens_statements _)
    refine ((tells_symbol name name').field (hparameters.field
      ((tells_type? returns returns').field (hbody.field .nil)))).record.tagged.mono ?_
    rintro ⟨rfl, hparameters, rfl, hbody, -⟩
    rw [Member.revise, Member.revise, hparameters, hbody]
termination_by structural x => x

theorem tells_members : ∀ xs ys : List Member, TellsAll (inspectMembers xs) (inspectMembers ys)
    (reviseMembers .oneNaN xs = reviseMembers .oneNaN ys)
  | [], [] => .nil rfl
  | [], _ :: _ => .nil_cons
  | _ :: _, [] => .cons_nil
  | x :: xs, y :: ys => by
    refine (TellsAll.cons (tells_member x y) (tells_members xs ys)).mono ?_
    rintro ⟨hx, hxs⟩
    rw [reviseMembers, reviseMembers, hx, hxs]
termination_by structural x => x

/-- The text of a statement tells the statement, but for NaNs. -/
theorem tells_statement : ∀ a b : Statement, Tells a.inspect b.inspect
    (a.revise .oneNaN = b.revise .oneNaN)
  | .expression value, b => by
    cases b with
    | expression value' =>
      refine (tells_expr value value').tagged.mono fun hvalue => ?_
      rw [Statement.revise, Statement.revise, hvalue]
    | _ => exact .of_name_ne (named_statement _) (named_statement _) (by simp [Statement.variant])
  | .declaration ⟨name, type, value, constant⟩, b => by
    cases b with
    | declaration d =>
      obtain ⟨name', type', value', constant'⟩ := d
      have hdeclared := tells_variableDeclaration name name' type type' constant constant'
        (tells_expr? value value')
      refine hdeclared.tagged.mono ?_
      rintro ⟨rfl, rfl, hvalue, rfl⟩
      rw [Statement.revise, Statement.revise, Declaration.revise, Declaration.revise, hvalue]
    | _ => exact .of_name_ne (named_statement _) (named_statement _) (by simp [Statement.variant])
  | .assignment target value, b => by
    cases b with
    | assignment target' value' =>
      refine ((tells_expr target target').field
        ((tells_expr value value').field .nil)).record.mono ?_
      rintro ⟨htarget, hvalue, -⟩
      rw [Statement.revise, Statement.revise, htarget, hvalue]
    | _ => exact .of_name_ne (named_statement _) (named_statement _) (by simp [Statement.variant])
  | .result value, b => by
    cases b with
    | result value' =>
      refine (tells_expr? value value').option.tagged.mono fun hvalue => ?_
      rw [Statement.revise, Statement.revise, hvalue]
    | _ => exact .of_name_ne (named_statement _) (named_statement _) (by simp [Statement.variant])
  | .block body, b => by
    cases b with
    | block body' =>
      have hbody := (tells_statements body body').list (opens_statements _) (opens_statements _)
      refine hbody.tagged.mono fun hbody => ?_
      rw [Statement.revise, Statement.revise, hbody]
    | _ => exact .of_name_ne (named_statement _) (named_statement _) (by simp [Statement.variant])
termination_by structural x => x

theorem tells_statements : ∀ xs ys : List Statement,
    TellsAll (inspectStatements xs) (inspectStatements ys)
      (reviseStatements .oneNaN xs = reviseStatements .oneNaN ys)
  | [], [] => .nil rfl
  | [], _ :: _ => .nil_cons
  | _ :: _, [] => .cons_nil
  | x :: xs, y :: ys => by
    refine (TellsAll.cons (tells_statement x y) (tells_statements xs ys)).mono ?_
    rintro ⟨hx, hxs⟩
    rw [reviseStatements, reviseStatements, hx, hxs]
termination_by structural x => x

end

end Inspect

end CodeTree
