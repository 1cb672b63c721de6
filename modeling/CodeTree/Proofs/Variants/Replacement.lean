import CodeTree.Proofs.Variants.Revision

/-! # One expression in the place of another

A tree may have an expression at many places: as a part of an expression, in the arguments of a call, as the
value of a declaration, in the body of a method. At any of them another expression can take its place. If a
revision makes the same of both expressions, then it makes the same of the tree before and after.

* `Expr.Replaced`, `Statement.Replaced`, `Member.Replaced`: the tree with one occurrence replaced.
* `Expr.Replaced.revise_eq`: what a revision makes of it. -/

namespace CodeTree

set_option autoImplicit false

/-! ## The tree with one occurrence replaced -/

section Relation

variable (a b : Expr)

mutual

/-- The second expression is the first one with `b` in the place of one `a`. -/
inductive Expr.Replaced : Expr → Expr → Prop
  | here : Expr.Replaced a b
  | arrayElement {e e' : Expr} (before after : List Expr) (kind : ArrayKind) (h : Expr.Replaced e e') :
      Expr.Replaced (.array (before ++ e :: after) kind) (.array (before ++ e' :: after) kind)
  | key {e e' : Expr} (value : Expr) (before after : List (Expr × Expr)) (h : Expr.Replaced e e') :
      Expr.Replaced (.dictionary (before ++ (e, value) :: after))
        (.dictionary (before ++ (e', value) :: after))
  | value {e e' : Expr} (key : Expr) (before after : List (Expr × Expr)) (h : Expr.Replaced e e') :
      Expr.Replaced (.dictionary (before ++ (key, e) :: after)) (.dictionary (before ++ (key, e') :: after))
  | tupleElement {e e' : Expr} (before after : List Expr) (h : Expr.Replaced e e') :
      Expr.Replaced (.tuple (before ++ e :: after)) (.tuple (before ++ e' :: after))
  | operand {e e' : Expr} (operator : Operator UnaryKind) (h : Expr.Replaced e e') :
      Expr.Replaced (.unary operator e) (.unary operator e')
  | left {e e' : Expr} (operator : Operator BinaryKind) (right : Expr) (h : Expr.Replaced e e') :
      Expr.Replaced (.binary operator e right) (.binary operator e' right)
  | right {e e' : Expr} (operator : Operator BinaryKind) (left : Expr) (h : Expr.Replaced e e') :
      Expr.Replaced (.binary operator left e) (.binary operator left e')
  | fieldSite {e e' : Expr} (selection : Selection) (h : Expr.Replaced e e') :
      Expr.Replaced (.field (some e) selection) (.field (some e') selection)
  | callSite {e e' : Expr} (selection : Selection) (arguments : List Argument) (optional : Bool)
      (h : Expr.Replaced e e') :
      Expr.Replaced (.call (some e) selection arguments optional)
        (.call (some e') selection arguments optional)
  | callArgument {e e' : Expr} (site : Option Expr) (selection : Selection) (name : Option Symbol)
      (passing : Passing) (before after : List Argument) (optional : Bool) (h : Expr.Replaced e e') :
      Expr.Replaced (.call site selection (before ++ ⟨name, e, passing⟩ :: after) optional)
        (.call site selection (before ++ ⟨name, e', passing⟩ :: after) optional)
  | propertySite {e e' : Expr} (selection : Selection) (indices : List Argument)
      (h : Expr.Replaced e e') :
      Expr.Replaced (.property (some e) selection indices) (.property (some e') selection indices)
  | propertyIndex {e e' : Expr} (site : Option Expr) (selection : Selection) (name : Option Symbol)
      (passing : Passing) (before after : List Argument) (h : Expr.Replaced e e') :
      Expr.Replaced (.property site selection (before ++ ⟨name, e, passing⟩ :: after))
        (.property site selection (before ++ ⟨name, e', passing⟩ :: after))
  | constructorArgument {e e' : Expr} (type : TypeReference) (constructor : Option Symbol)
      (name : Option Symbol) (passing : Passing) (before after initializers : List Argument)
      (h : Expr.Replaced e e') :
      Expr.Replaced (.construct type constructor (before ++ ⟨name, e, passing⟩ :: after) initializers)
        (.construct type constructor (before ++ ⟨name, e', passing⟩ :: after) initializers)
  | initializer {e e' : Expr} (type : TypeReference) (constructor : Option Symbol)
      (name : Option Symbol) (passing : Passing) (arguments before after : List Argument)
      (h : Expr.Replaced e e') :
      Expr.Replaced (.construct type constructor arguments (before ++ ⟨name, e, passing⟩ :: after))
        (.construct type constructor arguments (before ++ ⟨name, e', passing⟩ :: after))
  | bound {e e' : Expr} (type : TypeReference) (constructor : Option Symbol) (before after : List Expr)
      (initializers : List Argument) (h : Expr.Replaced e e') :
      Expr.Replaced (.allocate type constructor (before ++ e :: after) initializers)
        (.allocate type constructor (before ++ e' :: after) initializers)
  | allocationInitializer {e e' : Expr} (type : TypeReference) (constructor : Option Symbol)
      (bounds : List Expr) (name : Option Symbol) (passing : Passing) (before after : List Argument)
      (h : Expr.Replaced e e') :
      Expr.Replaced (.allocate type constructor bounds (before ++ ⟨name, e, passing⟩ :: after))
        (.allocate type constructor bounds (before ++ ⟨name, e', passing⟩ :: after))
  | indexed {e e' : Expr} (indices : List Expr) (h : Expr.Replaced e e') :
      Expr.Replaced (.element e indices) (.element e' indices)
  | index {e e' : Expr} (array : Expr) (before after : List Expr) (h : Expr.Replaced e e') :
      Expr.Replaced (.element array (before ++ e :: after)) (.element array (before ++ e' :: after))
  | wrapped {e e' : Expr} (wrapper : Wrapper) (h : Expr.Replaced e e') :
      Expr.Replaced (.wrapped wrapper e) (.wrapped wrapper e')
  | condition {e e' : Expr} (consequence : Expr) (alternative : Option Expr) (h : Expr.Replaced e e') :
      Expr.Replaced (.conditional e consequence alternative) (.conditional e' consequence alternative)
  | consequence {e e' : Expr} (condition : Expr) (alternative : Option Expr) (h : Expr.Replaced e e') :
      Expr.Replaced (.conditional condition e alternative) (.conditional condition e' alternative)
  | alternative {e e' : Expr} (condition consequence : Expr) (h : Expr.Replaced e e') :
      Expr.Replaced (.conditional condition consequence (some e))
        (.conditional condition consequence (some e'))
  | cast {e e' : Expr} (type : TypeReference) (throwing guaranteedSafe : Bool) (h : Expr.Replaced e e') :
      Expr.Replaced (.cast e type throwing guaranteedSafe) (.cast e' type throwing guaranteedSafe)
  | assigned {e e' : Expr} (inverted : Bool) (h : Expr.Replaced e e') :
      Expr.Replaced (.assigned e inverted) (.assigned e' inverted)
  | defaultValue {e e' : Expr} (lambda : Bool) (name : Symbol) (type : Option TypeReference)
      (passing : Passing) (before after : List Parameter) (returns : Option TypeReference)
      (body : List Statement) (locals : Option (List Declaration)) (h : Expr.Replaced e e') :
      Expr.Replaced
        (.method lambda (before ++ ⟨name, type, passing, some e⟩ :: after) returns body locals)
        (.method lambda (before ++ ⟨name, type, passing, some e'⟩ :: after) returns body locals)
  | body {s s' : Statement} (lambda : Bool) (parameters : List Parameter)
      (returns : Option TypeReference) (before after : List Statement)
      (locals : Option (List Declaration)) (h : Statement.Replaced s s') :
      Expr.Replaced (.method lambda parameters returns (before ++ s :: after) locals)
        (.method lambda parameters returns (before ++ s' :: after) locals)
  | localValue {e e' : Expr} (lambda : Bool) (parameters : List Parameter)
      (returns : Option TypeReference) (body : List Statement) (name : Symbol)
      (type : Option TypeReference) (constant : Bool) (before after : List Declaration)
      (h : Expr.Replaced e e') :
      Expr.Replaced
        (.method lambda parameters returns body (some (before ++ ⟨name, type, some e, constant⟩ :: after)))
        (.method lambda parameters returns body (some (before ++ ⟨name, type, some e', constant⟩ :: after)))
  | member {m m' : Member} (kind : AggregateKind) (before after : List Member)
      (h : Member.Replaced m m') :
      Expr.Replaced (.anonymousType kind (before ++ m :: after))
        (.anonymousType kind (before ++ m' :: after))

inductive Statement.Replaced : Statement → Statement → Prop
  | expression {e e' : Expr} (h : Expr.Replaced e e') :
      Statement.Replaced (.expression e) (.expression e')
  | declaration {e e' : Expr} (name : Symbol) (type : Option TypeReference) (constant : Bool)
      (h : Expr.Replaced e e') :
      Statement.Replaced (.declaration ⟨name, type, some e, constant⟩)
        (.declaration ⟨name, type, some e', constant⟩)
  | target {e e' : Expr} (value : Expr) (h : Expr.Replaced e e') :
      Statement.Replaced (.assignment e value) (.assignment e' value)
  | value {e e' : Expr} (target : Expr) (h : Expr.Replaced e e') :
      Statement.Replaced (.assignment target e) (.assignment target e')
  | result {e e' : Expr} (h : Expr.Replaced e e') :
      Statement.Replaced (.result (some e)) (.result (some e'))
  | block {s s' : Statement} (before after : List Statement) (h : Statement.Replaced s s') :
      Statement.Replaced (.block (before ++ s :: after)) (.block (before ++ s' :: after))

inductive Member.Replaced : Member → Member → Prop
  | field {e e' : Expr} (name : Symbol) (type : Option TypeReference) (constant : Bool)
      (h : Expr.Replaced e e') :
      Member.Replaced (.field ⟨name, type, some e, constant⟩) (.field ⟨name, type, some e', constant⟩)
  | defaultValue {e e' : Expr} (method name : Symbol) (type : Option TypeReference) (passing : Passing)
      (before after : List Parameter) (returns : Option TypeReference) (body : List Statement)
      (h : Expr.Replaced e e') :
      Member.Replaced (.method method (before ++ ⟨name, type, passing, some e⟩ :: after) returns body)
        (.method method (before ++ ⟨name, type, passing, some e'⟩ :: after) returns body)
  | body {s s' : Statement} (name : Symbol) (parameters : List Parameter)
      (returns : Option TypeReference) (before after : List Statement) (h : Statement.Replaced s s') :
      Member.Replaced (.method name parameters returns (before ++ s :: after))
        (.method name parameters returns (before ++ s' :: after))

end

end Relation

/-! ## Revisions -/

/-- A list that is revised item by item. -/
theorem append_cons_congr {α β : Type} {f : α → β} {reviseAll : List α → List β}
    (hcons : ∀ x xs, reviseAll (x :: xs) = f x :: reviseAll xs) (before after : List α) {x x' : α}
    (h : f x = f x') : reviseAll (before ++ x :: after) = reviseAll (before ++ x' :: after) := by
  induction before with
  | nil => rw [List.nil_append, List.nil_append, hcons, hcons, h]
  | cons y before ih => rw [List.cons_append, List.cons_append, hcons, hcons, ih]

section Revisions

variable {a b e e' : Expr} {r : Revision}

theorem reviseExprs_congr (before after : List Expr) (h : e.revise r = e'.revise r) :
    reviseExprs r (before ++ e :: after) = reviseExprs r (before ++ e' :: after) :=
  append_cons_congr (fun _ _ => rfl) before after h

theorem reviseEntries_congr {entry entry' : Expr × Expr} (before after : List (Expr × Expr))
    (hkey : entry.1.revise r = entry'.1.revise r) (hvalue : entry.2.revise r = entry'.2.revise r) :
    reviseEntries r (before ++ entry :: after) = reviseEntries r (before ++ entry' :: after) :=
  append_cons_congr (f := fun entry => (entry.1.revise r, entry.2.revise r)) (fun _ _ => rfl) before after
    (Prod.ext hkey hvalue)

theorem reviseArguments_congr (rename : Option Symbol → Option Symbol) (name : Option Symbol)
    (passing : Passing) (before after : List Argument) (h : e.revise r = e'.revise r) :
    reviseArguments r rename (before ++ ⟨name, e, passing⟩ :: after) =
      reviseArguments r rename (before ++ ⟨name, e', passing⟩ :: after) :=
  append_cons_congr (f := fun argument => ⟨rename argument.name, argument.value.revise r, argument.passing⟩)
    (fun ⟨_, _, _⟩ _ => rfl) before after (congrArg (Argument.mk (rename name) · passing) h)

theorem reviseParameters_congr (name : Symbol) (type : Option TypeReference) (passing : Passing)
    (before after : List Parameter) (h : e.revise r = e'.revise r) :
    reviseParameters r (before ++ ⟨name, type, passing, some e⟩ :: after) =
      reviseParameters r (before ++ ⟨name, type, passing, some e'⟩ :: after) :=
  append_cons_congr
    (f := fun p => ⟨r.name p.name, r.declaredType p.type, p.passing, reviseExpr? r p.defaultValue⟩)
    (fun ⟨_, _, _, _⟩ _ => rfl) before after
    (congrArg (fun value => Parameter.mk (r.name name) (r.declaredType type) passing (some value)) h)

theorem Declaration.revise_congr (name : Symbol) (type : Option TypeReference) (constant : Bool)
    (h : e.revise r = e'.revise r) :
    Declaration.revise r ⟨name, type, some e, constant⟩ =
      Declaration.revise r ⟨name, type, some e', constant⟩ :=
  congrArg (fun value => Declaration.mk (r.name name) (r.declaredType type) (some value)
    (r.constant constant)) h

/-- An allocation keeps its bounds and initializers, or none of them. -/
theorem revise_allocate_congr (type : TypeReference) (constructor : Option Symbol)
    {bounds bounds' : List Expr} {initializers initializers' : List Argument}
    (hbounds : reviseExprs r bounds = reviseExprs r bounds')
    (hinitializers : reviseArguments r r.initializerName initializers =
      reviseArguments r r.initializerName initializers') :
    (Expr.allocate type constructor bounds initializers).revise r =
      (Expr.allocate type constructor bounds' initializers').revise r := by
  rw [Expr.revise, Expr.revise, hbounds, hinitializers]

mutual

/-- A revision that makes the same of two expressions makes the same of a tree and of the tree with the one
in the place of the other. -/
theorem Expr.Replaced.revise_eq (hab : a.revise r = b.revise r) :
    ∀ {e e' : Expr}, Expr.Replaced a b e e' → e.revise r = e'.revise r
  | _, _, .here => hab
  | _, _, .arrayElement before after kind h =>
    congrArg (Expr.array · (r.arrayKind kind)) (reviseExprs_congr before after (h.revise_eq hab))
  | _, _, .key value before after h =>
    congrArg Expr.dictionary (reviseEntries_congr before after (h.revise_eq hab) rfl)
  | _, _, .value key before after h =>
    congrArg Expr.dictionary (reviseEntries_congr before after rfl (h.revise_eq hab))
  | _, _, .tupleElement before after h =>
    congrArg Expr.tuple (reviseExprs_congr before after (h.revise_eq hab))
  | _, _, .operand operator h => congrArg (Expr.unary operator) (h.revise_eq hab)
  | _, _, .left operator right h => congrArg (Expr.binary operator · (right.revise r)) (h.revise_eq hab)
  | _, _, .right operator left h => congrArg (Expr.binary operator (left.revise r)) (h.revise_eq hab)
  | _, _, .fieldSite selection h =>
    congrArg (fun site => Expr.field (some site) (r.selection true selection)) (h.revise_eq hab)
  | _, _, .callSite selection arguments optional h =>
    congrArg (fun site => Expr.call (some site) (r.selection true selection)
      (reviseArguments r r.argumentName arguments) (r.optional true optional)) (h.revise_eq hab)
  | _, _, .callArgument site selection name passing before after optional h =>
    congrArg (Expr.call (reviseExpr? r site) (r.selection site.isSome selection) ·
      (r.optional site.isSome optional))
      (reviseArguments_congr r.argumentName name passing before after (h.revise_eq hab))
  | _, _, .propertySite selection indices h =>
    congrArg (fun site => Expr.property (some site) (r.selection true selection)
      (reviseArguments r r.argumentName indices)) (h.revise_eq hab)
  | _, _, .propertyIndex site selection name passing before after h =>
    congrArg (Expr.property (reviseExpr? r site) (r.selection site.isSome selection))
      (reviseArguments_congr r.argumentName name passing before after (h.revise_eq hab))
  | _, _, .constructorArgument type constructor name passing before after initializers h =>
    congrArg (Expr.construct (r.createdType type) (r.constructorName constructor) ·
      (reviseArguments r r.initializerName initializers))
      (reviseArguments_congr r.argumentName name passing before after (h.revise_eq hab))
  | _, _, .initializer type constructor name passing arguments before after h =>
    congrArg (Expr.construct (r.createdType type) (r.constructorName constructor)
      (reviseArguments r r.argumentName arguments))
      (reviseArguments_congr r.initializerName name passing before after (h.revise_eq hab))
  | _, _, .bound type constructor before after initializers h =>
    revise_allocate_congr type constructor (reviseExprs_congr before after (h.revise_eq hab)) rfl
  | _, _, .allocationInitializer type constructor bounds name passing before after h =>
    revise_allocate_congr type constructor rfl
      (reviseArguments_congr r.initializerName name passing before after (h.revise_eq hab))
  | _, _, .indexed indices h => congrArg (Expr.element · (reviseExprs r indices)) (h.revise_eq hab)
  | _, _, .index array before after h =>
    congrArg (Expr.element (array.revise r)) (reviseExprs_congr before after (h.revise_eq hab))
  | _, _, .wrapped wrapper h => congrArg (Expr.wrapped wrapper) (h.revise_eq hab)
  | _, _, .condition consequence alternative h =>
    congrArg (Expr.conditional · (consequence.revise r) (reviseExpr? r alternative)) (h.revise_eq hab)
  | _, _, .consequence condition alternative h =>
    congrArg (Expr.conditional (condition.revise r) · (reviseExpr? r alternative)) (h.revise_eq hab)
  | _, _, .alternative condition consequence h =>
    congrArg (fun e => Expr.conditional (condition.revise r) (consequence.revise r) (some e))
      (h.revise_eq hab)
  | _, _, .cast type throwing guaranteedSafe h =>
    congrArg (Expr.cast · (r.castType type) (r.throwing throwing) (r.guaranteedSafe guaranteedSafe))
      (h.revise_eq hab)
  | _, _, .assigned inverted h => congrArg (Expr.assigned · inverted) (h.revise_eq hab)
  | _, _, .defaultValue lambda name type passing before after returns body locals h =>
    congrArg (Expr.method (r.lambda lambda) · (r.returns returns) (reviseStatements r body)
      (reviseLocals? r locals)) (reviseParameters_congr name type passing before after (h.revise_eq hab))
  | _, _, .body lambda parameters returns before after locals h =>
    congrArg (Expr.method (r.lambda lambda) (reviseParameters r parameters) (r.returns returns) ·
      (reviseLocals? r locals)) (append_cons_congr (fun _ _ => rfl) before after (h.revise_eq hab))
  | _, _, .localValue lambda parameters returns body name type constant before after h =>
    congrArg (fun locals => Expr.method (r.lambda lambda) (reviseParameters r parameters)
      (r.returns returns) (reviseStatements r body) (some locals))
      (append_cons_congr (fun _ _ => rfl) before after
        (Declaration.revise_congr name type constant (h.revise_eq hab)))
  | _, _, .member kind before after h =>
    congrArg (Expr.anonymousType kind) (append_cons_congr (fun _ _ => rfl) before after (h.revise_eq hab))

theorem Statement.Replaced.revise_eq (hab : a.revise r = b.revise r) :
    ∀ {s s' : Statement}, Statement.Replaced a b s s' → s.revise r = s'.revise r
  | _, _, .expression h => congrArg Statement.expression (h.revise_eq hab)
  | _, _, .declaration name type constant h =>
    congrArg Statement.declaration (Declaration.revise_congr name type constant (h.revise_eq hab))
  | _, _, .target value h => congrArg (Statement.assignment · (value.revise r)) (h.revise_eq hab)
  | _, _, .value target h => congrArg (Statement.assignment (target.revise r)) (h.revise_eq hab)
  | _, _, .result h => congrArg (fun e => Statement.result (some e)) (h.revise_eq hab)
  | _, _, .block before after h =>
    congrArg Statement.block (append_cons_congr (fun _ _ => rfl) before after (h.revise_eq hab))

theorem Member.Replaced.revise_eq (hab : a.revise r = b.revise r) :
    ∀ {m m' : Member}, Member.Replaced a b m m' → m.revise r = m'.revise r
  | _, _, .field name type constant h =>
    congrArg Member.field (Declaration.revise_congr name type constant (h.revise_eq hab))
  | _, _, .defaultValue method name type passing before after returns body h =>
    congrArg (Member.method (r.name method) · (r.returns returns) (reviseStatements r body))
      (reviseParameters_congr name type passing before after (h.revise_eq hab))
  | _, _, .body name parameters returns before after h =>
    congrArg (Member.method (r.name name) (reviseParameters r parameters) (r.returns returns))
      (append_cons_congr (fun _ _ => rfl) before after (h.revise_eq hab))

end

/-- The same for lists of statements with one of them changed. -/
theorem reviseStatements_eq_of_replaced (hab : a.revise r = b.revise r) {s s' : Statement}
    (before after : List Statement) (h : Statement.Replaced a b s s') :
    reviseStatements r (before ++ s :: after) = reviseStatements r (before ++ s' :: after) :=
  append_cons_congr (fun _ _ => rfl) before after (h.revise_eq hab)

end Revisions

end CodeTree
