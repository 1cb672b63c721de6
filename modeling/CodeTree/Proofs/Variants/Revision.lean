import CodeTree.Tree.Traversal

/-! # Revised trees

A revision says what becomes of each field of a node. The revised tree has the shape of the first one:
the same nodes in the same places, each with its fields changed. What a node is, its operators and how
values are passed are no fields in this sense and stay.

* `Revision`: the changes, one function for each field.
* `Expr.revise`, `Statement.revise`, `reviseStatements`: the revised trees.
* `Node.revise`: a revised tree at one of its places.
* `Expr.withoutConstants`, `withoutConstants`: the trees with no declaration constant.
* `Expr.revise_id`, `reviseStatements_id`: the revision that changes nothing. -/

namespace CodeTree

set_option autoImplicit false

/-- What becomes of the fields of a tree. A field that is not mentioned stays as it is. -/
structure Revision where
  shared : Sentinel → Expr := .shared
  atom : Atom → Atom := id
  /-- The names of parameters, declarations and members. -/
  name : Symbol → Symbol := id
  /-- The type that a parameter or a declaration is given. -/
  declaredType : Option TypeReference → Option TypeReference := id
  arrayKind : ArrayKind → ArrayKind := id
  /-- The selection of an access, with and without a site. -/
  selection : (hasSite : Bool) → Selection → Selection := fun _ => id
  /-- Whether a call is optional, with and without a site. -/
  optional : (hasSite : Bool) → Bool → Bool := fun _ => id
  /-- The names of the arguments of calls, of indexed properties and of constructors. -/
  argumentName : Option Symbol → Option Symbol := id
  /-- The names in property initializers. -/
  initializerName : Option Symbol → Option Symbol := id
  /-- The type of a new object or array. -/
  createdType : TypeReference → TypeReference := id
  constructorName : Option Symbol → Option Symbol := id
  /-- Whether an array allocation keeps its constructor, its bounds and its initializers. -/
  keepsAllocation : Bool := true
  castType : TypeReference → TypeReference := id
  throwing : Bool → Bool := id
  guaranteedSafe : Bool → Bool := id
  lambda : Bool → Bool := id
  returns : Option TypeReference → Option TypeReference := id
  /-- The flag of a declaration that says whether it is constant. -/
  constant : Bool → Bool := id

variable (r : Revision)

mutual

def Expr.revise : Expr → Expr
  | .shared s => r.shared s
  | .atom a => .atom (r.atom a)
  | .array elements kind => .array (reviseExprs elements) (r.arrayKind kind)
  | .dictionary entries => .dictionary (reviseEntries entries)
  | .tuple elements => .tuple (reviseExprs elements)
  | .unary operator operand => .unary operator operand.revise
  | .binary operator left right => .binary operator left.revise right.revise
  | .field site selection => .field (reviseExpr? site) (r.selection site.isSome selection)
  | .call site selection arguments optional =>
    .call (reviseExpr? site) (r.selection site.isSome selection)
      (reviseArguments r.argumentName arguments) (r.optional site.isSome optional)
  | .property site selection indices =>
    .property (reviseExpr? site) (r.selection site.isSome selection)
      (reviseArguments r.argumentName indices)
  | .construct type constructor arguments initializers =>
    .construct (r.createdType type) (r.constructorName constructor)
      (reviseArguments r.argumentName arguments) (reviseArguments r.initializerName initializers)
  | .allocate type constructor bounds initializers =>
    if r.keepsAllocation then
      .allocate (r.createdType type) (r.constructorName constructor) (reviseExprs bounds)
        (reviseArguments r.initializerName initializers)
    else
      .allocate (r.createdType type) none [] []
  | .element array indices => .element array.revise (reviseExprs indices)
  | .wrapped wrapper inner => .wrapped wrapper inner.revise
  | .conditional condition consequence alternative =>
    .conditional condition.revise consequence.revise (reviseExpr? alternative)
  | .cast value type throwing guaranteedSafe =>
    .cast value.revise (r.castType type) (r.throwing throwing) (r.guaranteedSafe guaranteedSafe)
  | .assigned value inverted => .assigned value.revise inverted
  | .method lambda parameters returns body locals =>
    .method (r.lambda lambda) (reviseParameters parameters) (r.returns returns)
      (reviseStatements body) (reviseLocals? locals)
  | .anonymousType kind members => .anonymousType kind (reviseMembers members)

def reviseExpr? : Option Expr → Option Expr
  | none => none
  | some e => some e.revise

def reviseExprs : List Expr → List Expr
  | [] => []
  | e :: es => e.revise :: reviseExprs es

def reviseEntries : List (Expr × Expr) → List (Expr × Expr)
  | [] => []
  | (key, value) :: entries => (key.revise, value.revise) :: reviseEntries entries

/-- Revises arguments or initializers, which treat their names differently. -/
def reviseArguments (rename : Option Symbol → Option Symbol) : List Argument → List Argument
  | [] => []
  | ⟨name, value, passing⟩ :: arguments =>
    ⟨rename name, value.revise, passing⟩ :: reviseArguments rename arguments

def reviseParameters : List Parameter → List Parameter
  | [] => []
  | ⟨name, type, passing, value⟩ :: parameters =>
    ⟨r.name name, r.declaredType type, passing, reviseExpr? value⟩ :: reviseParameters parameters

def Declaration.revise : Declaration → Declaration
  | ⟨name, type, value, constant⟩ =>
    ⟨r.name name, r.declaredType type, reviseExpr? value, r.constant constant⟩

def reviseLocals : List Declaration → List Declaration
  | [] => []
  | declared :: locals => declared.revise :: reviseLocals locals

def reviseLocals? : Option (List Declaration) → Option (List Declaration)
  | none => none
  | some locals => some (reviseLocals locals)

def Member.revise : Member → Member
  | .field declared => .field declared.revise
  | .method name parameters returns body =>
    .method (r.name name) (reviseParameters parameters) (r.returns returns) (reviseStatements body)

def reviseMembers : List Member → List Member
  | [] => []
  | member :: members => member.revise :: reviseMembers members

def Statement.revise : Statement → Statement
  | .expression value => .expression value.revise
  | .declaration declared => .declaration declared.revise
  | .assignment target value => .assignment target.revise value.revise
  | .result value => .result (reviseExpr? value)
  | .block body => .block (reviseStatements body)

def reviseStatements : List Statement → List Statement
  | [] => []
  | s :: statements => s.revise :: reviseStatements statements

end

def Node.revise : Node → Node
  | expression e => expression (e.revise r)
  | statement s => statement (s.revise r)
  | member definition => member (definition.revise r)
  | raw code => raw code

/-- The tree with no declaration constant. -/
def Expr.withoutConstants (e : Expr) : Expr := e.revise { constant := fun _ => false }

def withoutConstants (statements : List Statement) : List Statement :=
  reviseStatements { constant := fun _ => false } statements

/-! ## Fields that stay as they are -/

mutual

theorem Expr.revise_id : ∀ e : Expr, e.revise {} = e
  | .shared _ | .atom _ => rfl
  | .array elements _ => by
    rw [Expr.revise, reviseExprs_id elements]
    rfl
  | .dictionary entries => by rw [Expr.revise, reviseEntries_id entries]
  | .tuple elements => by rw [Expr.revise, reviseExprs_id elements]
  | .unary _ operand => by rw [Expr.revise, Expr.revise_id operand]
  | .binary _ left right => by rw [Expr.revise, Expr.revise_id left, Expr.revise_id right]
  | .field site _ => by
    rw [Expr.revise, reviseExpr?_id site]
    rfl
  | .call site _ arguments _ => by
    rw [Expr.revise, reviseExpr?_id site, reviseArguments_id arguments]
    rfl
  | .property site _ indices => by
    rw [Expr.revise, reviseExpr?_id site, reviseArguments_id indices]
    rfl
  | .construct _ _ arguments initializers => by
    rw [Expr.revise, reviseArguments_id arguments, reviseArguments_id initializers]
    rfl
  | .allocate _ _ bounds initializers => by
    rw [Expr.revise, if_pos rfl, reviseExprs_id bounds, reviseArguments_id initializers]
    rfl
  | .element array indices => by rw [Expr.revise, Expr.revise_id array, reviseExprs_id indices]
  | .wrapped _ inner => by rw [Expr.revise, Expr.revise_id inner]
  | .conditional condition consequence alternative => by
    rw [Expr.revise, Expr.revise_id condition, Expr.revise_id consequence, reviseExpr?_id alternative]
  | .cast value _ _ _ => by
    rw [Expr.revise, Expr.revise_id value]
    rfl
  | .assigned value _ => by rw [Expr.revise, Expr.revise_id value]
  | .method _ parameters _ body locals => by
    rw [Expr.revise, reviseParameters_id parameters, reviseStatements_id body, reviseLocals?_id locals]
    rfl
  | .anonymousType _ members => by rw [Expr.revise, reviseMembers_id members]

theorem reviseExpr?_id : ∀ e : Option Expr, reviseExpr? {} e = e
  | none => rfl
  | some e => by rw [reviseExpr?, Expr.revise_id e]

theorem reviseExprs_id : ∀ es : List Expr, reviseExprs {} es = es
  | [] => rfl
  | e :: es => by rw [reviseExprs, Expr.revise_id e, reviseExprs_id es]

theorem reviseEntries_id : ∀ entries : List (Expr × Expr), reviseEntries {} entries = entries
  | [] => rfl
  | (key, value) :: entries => by
    rw [reviseEntries, Expr.revise_id key, Expr.revise_id value, reviseEntries_id entries]

theorem reviseArguments_id : ∀ arguments : List Argument, reviseArguments {} id arguments = arguments
  | [] => rfl
  | ⟨_, value, _⟩ :: arguments => by
    rw [reviseArguments, Expr.revise_id value, reviseArguments_id arguments]
    rfl

theorem reviseParameters_id : ∀ parameters : List Parameter, reviseParameters {} parameters = parameters
  | [] => rfl
  | ⟨_, _, _, value⟩ :: parameters => by
    rw [reviseParameters, reviseExpr?_id value, reviseParameters_id parameters]
    rfl

theorem Declaration.revise_id : ∀ declared : Declaration, declared.revise {} = declared
  | ⟨_, _, value, _⟩ => by
    rw [Declaration.revise, reviseExpr?_id value]
    rfl

theorem reviseLocals_id : ∀ locals : List Declaration, reviseLocals {} locals = locals
  | [] => rfl
  | declared :: locals => by
    rw [reviseLocals, Declaration.revise_id declared, reviseLocals_id locals]

theorem reviseLocals?_id : ∀ locals : Option (List Declaration), reviseLocals? {} locals = locals
  | none => rfl
  | some locals => by rw [reviseLocals?, reviseLocals_id locals]

theorem Member.revise_id : ∀ member : Member, member.revise {} = member
  | .field declared => by rw [Member.revise, Declaration.revise_id declared]
  | .method _ parameters _ body => by
    rw [Member.revise, reviseParameters_id parameters, reviseStatements_id body]
    rfl

theorem reviseMembers_id : ∀ members : List Member, reviseMembers {} members = members
  | [] => rfl
  | member :: members => by rw [reviseMembers, Member.revise_id member, reviseMembers_id members]

theorem Statement.revise_id : ∀ s : Statement, s.revise {} = s
  | .expression value => by rw [Statement.revise, Expr.revise_id value]
  | .declaration declared => by rw [Statement.revise, Declaration.revise_id declared]
  | .assignment target value => by rw [Statement.revise, Expr.revise_id target, Expr.revise_id value]
  | .result value => by rw [Statement.revise, reviseExpr?_id value]
  | .block body => by rw [Statement.revise, reviseStatements_id body]

theorem reviseStatements_id : ∀ statements : List Statement, reviseStatements {} statements = statements
  | [] => rfl
  | s :: statements => by rw [reviseStatements, Statement.revise_id s, reviseStatements_id statements]

end

end CodeTree
