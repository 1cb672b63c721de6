import CodeTree.Proofs.Acceptance.Reported
import CodeTree.Proofs.Names.Correspondence

/-! # The symbols of a tree

The symbols of a tree are those in the fields of its nodes, whether they are written or not. What the
emitter asks for is among them. They are all that count: a tree corresponds to itself for any relation
that each of them has to itself.

* `Node.fieldSymbols`, `Node.allSymbols`: the symbols of a node and of the tree below it.
* `Node.asked_subset_fieldSymbols`: the emitter asks for no other symbols.
* `Node.corresponds_self`: no other symbols count for correspondence. -/

namespace CodeTree

set_option autoImplicit false

/-! ## Fields -/

mutual

def TypeReference.allSymbols : TypeReference → List Symbol
  | ⟨name, arguments, _⟩ => name :: symbolsOfTypes arguments

def symbolsOfTypes : List TypeReference → List Symbol
  | [] => []
  | type :: types => type.allSymbols ++ symbolsOfTypes types

end

def Atom.fieldSymbols : Atom → List Symbol
  | identifier name => [name]
  | localVariable read => [read.name]
  | typeReference type => type.allSymbols
  | enumValue value => value.value :: value.type.allSymbols
  | selector name => [name]
  | default type => type.allSymbols
  | _ => []

/-- The symbols in a type that may be missing. -/
def symbolsOfType? (type : Option TypeReference) : List Symbol :=
  type.toList.flatMap TypeReference.allSymbols

def Parameter.fieldSymbols (p : Parameter) : List Symbol := p.name :: symbolsOfType? p.type

def Declaration.fieldSymbols (declared : Declaration) : List Symbol :=
  declared.name :: symbolsOfType? declared.type

def Expr.fieldSymbols : Expr → List Symbol
  | atom a => a.fieldSymbols
  | field _ selection => [selection.name]
  | call _ selection arguments _ => selection.name :: arguments.filterMap (·.name)
  | property _ selection indices => selection.name :: indices.filterMap (·.name)
  | construct type constructor arguments initializers =>
    type.allSymbols ++ constructor.toList ++ arguments.filterMap (·.name) ++
      initializers.filterMap (·.name)
  | allocate type constructor _ initializers =>
    type.allSymbols ++ constructor.toList ++ initializers.filterMap (·.name)
  | cast _ type _ _ => type.allSymbols
  | method _ parameters returns _ locals =>
    parameters.flatMap Parameter.fieldSymbols ++ symbolsOfType? returns ++
      (locals.getD []).flatMap Declaration.fieldSymbols
  | _ => []

namespace Node

/-- The symbols in the fields of a node, without those below it. -/
def fieldSymbols : Node → List Symbol
  | expression e => e.fieldSymbols
  | statement (.declaration declared) => declared.fieldSymbols
  | member (.field declared) => declared.fieldSymbols
  | member (.method name parameters returns _) =>
    name :: (parameters.flatMap Parameter.fieldSymbols ++ symbolsOfType? returns)
  | _ => []

/-- The symbols of a tree. -/
def allSymbols (node : Node) : List Symbol := node.nodes.flatMap fieldSymbols

theorem allSymbols_eq (node : Node) :
    node.allSymbols = node.seen.fieldSymbols ++ node.children.flatMap allSymbols := by
  rw [allSymbols, nodes_eq, List.flatMap_cons, List.flatMap_assoc]
  rfl

end Node

/-! ## What is asked for -/

theorem TypeReference.name_mem_allSymbols (type : TypeReference) : type.name ∈ type.allSymbols := by
  obtain ⟨name, arguments, nullable⟩ := type
  exact List.mem_cons_self

theorem Atom.symbols_subset_fieldSymbols (a : Atom) : a.symbols ⊆ a.fieldSymbols := by
  cases a with
  | typeReference type => exact List.cons_subset.2 ⟨type.name_mem_allSymbols, List.nil_subset _⟩
  | enumValue value =>
    refine List.cons_subset.2 ⟨List.mem_cons_of_mem _ value.type.name_mem_allSymbols, ?_⟩
    exact List.cons_subset.2 ⟨List.mem_cons_self, List.nil_subset _⟩
  | selector | default => exact List.nil_subset _
  | _ => exact List.Subset.refl _

theorem asked_subset_names (named : Lua.NamedArguments) (arguments : List Argument) :
    named.asked arguments ⊆ arguments.filterMap (·.name) := by
  cases named with
  | positional => exact List.nil_subset _
  | reject => exact List.Subset.refl _

theorem names_subset_fieldSymbols {α : Type} {name : α → Symbol} {fieldSymbols : α → List Symbol}
    (h : ∀ a, name a ∈ fieldSymbols a) (as : List α) : as.map name ⊆ as.flatMap fieldSymbols := by
  intro s hs
  obtain ⟨a, ha, rfl⟩ := List.mem_map.1 hs
  exact List.mem_flatMap.2 ⟨a, ha, h a⟩

theorem Expr.asked_subset_fieldSymbols (named : Lua.NamedArguments) (e : Expr) :
    e.asked named ⊆ e.fieldSymbols := by
  have hnames (arguments : List Argument) := asked_subset_names named arguments
  cases e with
  | shared s => cases s <;> cases named <;> exact List.nil_subset _
  | atom a =>
    have hnone : named.asked [] = [] := by cases named <;> rfl
    show a.symbols ++ named.asked [] ⊆ a.fieldSymbols
    rw [hnone, List.append_nil]
    exact a.symbols_subset_fieldSymbols
  | call site selection arguments optional => exact List.cons_subset_cons _ (hnames arguments)
  | property site selection indices => exact List.cons_subset_cons _ (hnames indices)
  | construct type constructor arguments initializers =>
    intro s hs
    have hasked := @hnames arguments s
    have htype : s = type.name → s ∈ type.allSymbols := fun h => h ▸ type.name_mem_allSymbols
    simp only [asked, symbols, arguments?, Option.getD_some, List.cons_append, List.mem_cons,
      List.mem_append, fieldSymbols] at hs ⊢
    tauto
  | allocate type constructor bounds initializers =>
    have htype := List.mem_append_left constructor.toList type.name_mem_allSymbols
    exact List.cons_subset.2 ⟨List.mem_append_left _ htype, List.nil_subset _⟩
  | method lambda parameters returns body locals =>
    have hnone : named.asked [] = [] := by cases named <;> rfl
    have hparameters : parameters.map (·.name) ⊆ parameters.flatMap Parameter.fieldSymbols :=
      names_subset_fieldSymbols (fun _ => List.mem_cons_self) parameters
    have hlocals : (locals.getD []).map (·.name) ⊆
        (locals.getD []).flatMap Declaration.fieldSymbols :=
      names_subset_fieldSymbols (fun _ => List.mem_cons_self) (locals.getD [])
    show _ ++ _ ++ named.asked [] ⊆ _
    rw [hnone, List.append_nil]
    refine List.append_subset.2 ⟨fun s hs => ?_, fun s hs => List.mem_append_right _ (hlocals hs)⟩
    exact List.mem_append_left _ (List.mem_append_left _ (hparameters hs))
  | cast => cases named <;> exact List.nil_subset _
  | _ => cases named <;> exact List.Subset.refl _

theorem Node.asked_subset_fieldSymbols (named : Lua.NamedArguments) (node : Node) :
    node.asked named ⊆ node.fieldSymbols := by
  cases node with
  | expression e => exact e.asked_subset_fieldSymbols named
  | statement s =>
    cases s with
    | declaration declared => exact List.cons_subset_cons _ (List.nil_subset _)
    | _ => exact List.nil_subset _
  | member | raw => exact List.nil_subset _

/-! ## Symbols and correspondence -/

section Self

variable {R : Symbol → Symbol → Prop}

theorem rel_self {α : Type} {Q : α → α → Prop} {part : Option α} (h : ∀ a ∈ part.toList, Q a a) :
    Option.Rel Q part part := by
  cases part with
  | none => exact .none
  | some a => exact .some (h a List.mem_cons_self)

mutual

theorem TypeReference.corresponds_self : ∀ type : TypeReference,
    (∀ s ∈ type.allSymbols, R s s) → type.Corresponds R type
  | ⟨name, arguments, nullable⟩, h =>
    .intro nullable (h name List.mem_cons_self)
      (typesCorrespond_self arguments fun s hs => h s (List.mem_cons_of_mem name hs))

theorem typesCorrespond_self : ∀ types : List TypeReference, (∀ s ∈ symbolsOfTypes types, R s s) →
    List.Forall₂ (TypeReference.Corresponds R) types types
  | [], _ => .nil
  | type :: types, h =>
    .cons (type.corresponds_self fun s hs => h s (List.mem_append_left _ hs))
      (typesCorrespond_self types fun s hs => h s (List.mem_append_right _ hs))

end

theorem type?Corresponds_self {type : Option TypeReference} (h : ∀ s ∈ symbolsOfType? type, R s s) :
    Option.Rel (TypeReference.Corresponds R) type type :=
  rel_self fun type htype => type.corresponds_self fun s hs => h s (List.mem_flatMap.2 ⟨type, htype, hs⟩)

theorem Atom.corresponds_self (a : Atom) (h : ∀ s ∈ a.fieldSymbols, R s s) : a.Corresponds R a := by
  cases a with
  | nil => exact .nil
  | selfReference => exact .selfReference
  | propertyValue => exact .propertyValue
  | inherited => exact .inherited
  | literal value => exact .literal value
  | raw code => exact .raw code
  | identifier name => exact .identifier (h name List.mem_cons_self)
  | localVariable read =>
    obtain ⟨name, nilSafe, unwrap⟩ := read
    exact .localVariable nilSafe unwrap (h name List.mem_cons_self)
  | typeReference type => exact .typeReference (type.corresponds_self h)
  | enumValue value =>
    obtain ⟨type, value⟩ := value
    exact .enumValue (type.corresponds_self fun s hs => h s (List.mem_cons_of_mem _ hs))
      (h value List.mem_cons_self)
  | selector name => exact .selector (h name List.mem_cons_self)
  | default type => exact .default (type.corresponds_self h)

theorem Selection.corresponds_self (selection : Selection) (h : R selection.name selection.name) :
    selection.Corresponds R selection := by
  obtain ⟨name, nilSafe, unwrap⟩ := selection
  exact .intro nilSafe unwrap h

theorem argumentsCorrespond_self {arguments : List Argument}
    (hnames : ∀ s ∈ arguments.filterMap (·.name), R s s)
    (hvalues : ∀ e ∈ arguments.map (·.value), e.Corresponds R e) :
    List.Forall₂ (Argument.Corresponds R) arguments arguments := by
  refine List.forall₂_same.2 fun a ha => ?_
  obtain ⟨name, value, passing⟩ := a
  refine .intro passing (rel_self fun s hs => hnames s ?_) (hvalues value (List.mem_map_of_mem ha))
  exact List.mem_filterMap.2 ⟨_, ha, Option.mem_toList.1 hs⟩

theorem parametersCorrespond_self {parameters : List Parameter}
    (hfields : ∀ s ∈ parameters.flatMap Parameter.fieldSymbols, R s s)
    (hvalues : ∀ e ∈ parameters.filterMap (·.defaultValue), e.Corresponds R e) :
    List.Forall₂ (Parameter.Corresponds R) parameters parameters := by
  refine List.forall₂_same.2 fun p hp => ?_
  have hfield (s : Symbol) (hs : s ∈ p.fieldSymbols) : R s s :=
    hfields s (List.mem_flatMap.2 ⟨p, hp, hs⟩)
  obtain ⟨name, type, passing, value⟩ := p
  refine .intro passing (hfield name List.mem_cons_self)
    (type?Corresponds_self fun s hs => hfield s (List.mem_cons_of_mem _ hs))
    (rel_self fun e he => hvalues e ?_)
  exact List.mem_filterMap.2 ⟨_, hp, Option.mem_toList.1 he⟩

theorem Declaration.corresponds_self (declared : Declaration)
    (hfields : ∀ s ∈ declared.fieldSymbols, R s s)
    (hvalue : ∀ e ∈ declared.value.toList, e.Corresponds R e) : declared.Corresponds R declared := by
  obtain ⟨name, type, value, constant⟩ := declared
  exact .intro constant (hfields name List.mem_cons_self)
    (type?Corresponds_self fun s hs => hfields s (List.mem_cons_of_mem _ hs)) (rel_self hvalue)

theorem localsCorrespond_self {locals : Option (List Declaration)}
    (hfields : ∀ s ∈ (locals.getD []).flatMap Declaration.fieldSymbols, R s s)
    (hvalues : ∀ e ∈ (locals.getD []).filterMap (·.value), e.Corresponds R e) :
    Option.Rel (List.Forall₂ (Declaration.Corresponds R)) locals locals := by
  cases locals with
  | none => exact .none
  | some locals =>
    refine .some (List.forall₂_same.2 fun declared hmem => declared.corresponds_self ?_ ?_)
    · exact fun s hs => hfields s (List.mem_flatMap.2 ⟨declared, hmem, hs⟩)
    · exact fun e he => hvalues e (List.mem_filterMap.2 ⟨declared, hmem, Option.mem_toList.1 he⟩)

/-- An expression corresponds to itself if its symbols are related to themselves and its parts
correspond to themselves. -/
theorem Expr.corresponds_of_parts (e : Expr) (hfields : ∀ s ∈ e.fieldSymbols, R s s)
    (hoperands : ∀ operand ∈ e.operands, operand.Corresponds R operand)
    (hbody : ∀ s ∈ e.body, s.Corresponds R s) (hmembers : ∀ m ∈ e.members, m.Corresponds R m) :
    e.Corresponds R e := by
  cases e with
  | shared s => exact .shared s
  | atom a => exact .atom (a.corresponds_self hfields)
  | array elements kind => exact .array kind (List.forall₂_same.2 hoperands)
  | dictionary entries =>
    refine .dictionary (List.forall₂_same.2 fun entry hentry => ?_)
    have hpart (e : Expr) (he : e ∈ [entry.1, entry.2]) : e.Corresponds R e :=
      hoperands e (List.mem_flatMap.2 ⟨entry, hentry, he⟩)
    exact .intro (hpart _ (by simp)) (hpart _ (by simp))
  | tuple elements => exact .tuple (List.forall₂_same.2 hoperands)
  | unary operator operand => exact .unary operator (hoperands operand (by simp [operands]))
  | binary operator left right =>
    exact .binary operator (hoperands left (by simp [operands])) (hoperands right (by simp [operands]))
  | field site selection =>
    exact .field (rel_self hoperands) (selection.corresponds_self (hfields _ List.mem_cons_self))
  | call site selection arguments optional =>
    refine .call optional (rel_self fun e he => hoperands e (List.mem_append_left _ he))
      (selection.corresponds_self (hfields _ List.mem_cons_self)) (argumentsCorrespond_self ?_ ?_)
    · exact fun s hs => hfields s (List.mem_cons_of_mem _ hs)
    · exact fun e he => hoperands e (List.mem_append_right _ he)
  | property site selection indices =>
    refine .property (rel_self fun e he => hoperands e (List.mem_append_left _ he))
      (selection.corresponds_self (hfields _ List.mem_cons_self)) (argumentsCorrespond_self ?_ ?_)
    · exact fun s hs => hfields s (List.mem_cons_of_mem _ hs)
    · exact fun e he => hoperands e (List.mem_append_right _ he)
  | construct type constructor arguments initializers =>
    simp only [fieldSymbols, List.mem_append, or_imp, forall_and] at hfields
    obtain ⟨⟨⟨htype, hconstructor⟩, harguments⟩, hinitializers⟩ := hfields
    simp only [operands, List.mem_append, or_imp, forall_and] at hoperands
    exact .construct (type.corresponds_self htype) (rel_self hconstructor)
      (argumentsCorrespond_self harguments hoperands.1)
      (argumentsCorrespond_self hinitializers hoperands.2)
  | allocate type constructor bounds initializers =>
    simp only [fieldSymbols, List.mem_append, or_imp, forall_and] at hfields
    obtain ⟨⟨htype, hconstructor⟩, hinitializers⟩ := hfields
    simp only [operands, List.mem_append, or_imp, forall_and] at hoperands
    exact .allocate (type.corresponds_self htype) (rel_self hconstructor)
      (List.forall₂_same.2 hoperands.1) (argumentsCorrespond_self hinitializers hoperands.2)
  | element array indices =>
    exact .element (hoperands array List.mem_cons_self)
      (List.forall₂_same.2 fun e he => hoperands e (List.mem_cons_of_mem _ he))
  | wrapped wrapper inner => exact .wrapped wrapper (hoperands inner (by simp [operands]))
  | conditional condition consequence alternative =>
    refine .conditional (hoperands condition (by simp [operands]))
      (hoperands consequence (by simp [operands])) (rel_self fun e he => hoperands e ?_)
    exact List.mem_cons_of_mem _ (List.mem_cons_of_mem _ he)
  | cast value type throwing guaranteedSafe =>
    exact .cast throwing guaranteedSafe (hoperands value (by simp [operands]))
      (type.corresponds_self hfields)
  | assigned value inverted => exact .assigned inverted (hoperands value (by simp [operands]))
  | method lambda parameters returns body locals =>
    simp only [fieldSymbols, List.mem_append, or_imp, forall_and] at hfields
    obtain ⟨⟨hparameters, hreturns⟩, hlocals⟩ := hfields
    simp only [operands, List.mem_append, or_imp, forall_and] at hoperands
    exact .method lambda (parametersCorrespond_self hparameters hoperands.1)
      (type?Corresponds_self hreturns) (List.forall₂_same.2 hbody)
      (localsCorrespond_self hlocals hoperands.2)
  | anonymousType kind members => exact .anonymousType kind (List.forall₂_same.2 hmembers)

theorem Statement.corresponds_of_parts (s : Statement)
    (hfields : ∀ t ∈ (Node.statement s).fieldSymbols, R t t)
    (hoperands : ∀ operand ∈ s.operands, operand.Corresponds R operand)
    (hbody : ∀ t ∈ s.body, t.Corresponds R t) : s.Corresponds R s := by
  cases s with
  | expression value => exact .expression (hoperands value (by simp [operands]))
  | declaration declared => exact .declaration (declared.corresponds_self hfields hoperands)
  | assignment target value =>
    exact .assignment (hoperands target (by simp [operands])) (hoperands value (by simp [operands]))
  | result value => exact .result (rel_self hoperands)
  | block body => exact .block (List.forall₂_same.2 hbody)

theorem Member.corresponds_of_parts (m : Member) (hfields : ∀ s ∈ (Node.member m).fieldSymbols, R s s)
    (hoperands : ∀ operand ∈ m.operands, operand.Corresponds R operand)
    (hbody : ∀ s ∈ m.body, s.Corresponds R s) : m.Corresponds R m := by
  cases m with
  | field declared => exact .field (declared.corresponds_self hfields hoperands)
  | method name parameters returns body =>
    simp only [Node.fieldSymbols, List.mem_cons, List.mem_append, or_imp, forall_and,
      forall_eq] at hfields
    obtain ⟨hname, hparameters, hreturns⟩ := hfields
    exact .method hname (parametersCorrespond_self hparameters hoperands)
      (type?Corresponds_self hreturns) (List.forall₂_same.2 hbody)

/-- Whether what is at two places corresponds. -/
def Node.Corresponds (R : Symbol → Symbol → Prop) : Node → Node → Prop
  | expression e, expression e' => e.Corresponds R e'
  | statement s, statement s' => s.Corresponds R s'
  | member m, member m' => m.Corresponds R m'
  | raw code, raw code' => code = code'
  | _, _ => False

/-- A tree corresponds to itself if each of its symbols is related to itself. -/
theorem Node.corresponds_self (node : Node) (h : ∀ s ∈ node.allSymbols, R s s) :
    node.Corresponds R node := by
  rw [allSymbols_eq] at h
  have hfields (s : Symbol) (hs : s ∈ node.seen.fieldSymbols) : R s s :=
    h s (List.mem_append_left _ hs)
  have hparts : ∀ child ∈ node.children, child.Corresponds R child := fun child hchild =>
    child.corresponds_self fun s hs =>
      h s (List.mem_append_right _ (List.mem_flatMap.2 ⟨child, hchild, hs⟩))
  cases node with
  | expression e =>
    refine e.corresponds_of_parts ?_ (fun operand ho => hparts (.expression operand) ?_)
      (fun s hs => hparts (.statement s) ?_) (fun m hm => hparts (.member m) ?_)
    · cases e with
      | shared s => exact fun s hs => nomatch hs
      | _ => exact hfields
    · simp [children, ho]
    · simp [children, hs]
    · simp [children, hm]
  | statement s =>
    refine s.corresponds_of_parts hfields (fun operand ho => hparts (.expression operand) ?_)
      (fun t ht => hparts (.statement t) ?_)
    · simp [children, ho]
    · simp [children, ht]
  | member m =>
    refine m.corresponds_of_parts hfields (fun operand ho => hparts (.expression operand) ?_)
      (fun s hs => hparts (.statement s) ?_)
    · simp [children, ho]
    · simp [children, hs]
  | raw code => exact rfl
termination_by sizeOf node
decreasing_by exact sizeOf_lt_of_mem_children ‹_›

end Self

end CodeTree
