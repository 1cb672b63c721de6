import CodeTree.Proofs.Emission.Rendered
import CodeTree.Proofs.Emission.Text

/-! # Free names of a tree

A tree mentions a name when the name is read in it outside of the methods that bind it. Names of
members that are selected from a site, of enumeration values, constructors and properties do not count,
and neither does what is below an array allocation.

* `Mentions`: the names that an expression mentions, and likewise for its parts.
* `Declares`: the name that a statement binds in what follows it.
* `Captures`: the nodes whose form in Lua binds a name that the parts inside of it mention. -/

namespace CodeTree.Lua

set_option autoImplicit false

section Mentions

variable (g : Setting) (name : String)

/-- An atom is read from a name. -/
def AtomMentions : Atom → Prop
  | .selfReference => name = "self"
  | .identifier s => g.names.resolve s = some name
  | .localVariable read => g.names.resolve read.name = some name
  | .typeReference type => g.names.resolve type.name = some name
  | .enumValue value => g.names.resolve value.type.name = some name
  | _ => False

/-- A statement binds the name in what follows it. -/
def Declares : Statement → Prop
  | .declaration declared => g.names.resolve declared.name = some name
  | _ => False

mutual

/-- The name is read in an expression and not bound there. -/
def Mentions : Expr → Prop
  | .shared s => AtomMentions g name s.atom
  | .atom a => AtomMentions g name a
  | .array elements _ => MentionsAny elements
  | .dictionary entries => MentionsEntry entries
  | .tuple elements => MentionsAny elements
  | .unary _ operand => Mentions operand
  | .binary _ left right => Mentions left ∨ Mentions right
  | .field site selection => MentionsSite selection site
  | .call site selection arguments _ => MentionsSite selection site ∨ MentionsArgument arguments
  | .property site selection indices => MentionsSite selection site ∨ MentionsArgument indices
  | .construct type _ arguments initializers =>
    g.names.resolve type.name = some name ∨ MentionsArgument arguments ∨ MentionsArgument initializers
  | .allocate _ _ _ _ => False
  | .element array indices => Mentions array ∨ MentionsAny indices
  | .wrapped _ inner => Mentions inner
  | .conditional condition consequence alternative =>
    Mentions condition ∨ Mentions consequence ∨ MentionsExpr? alternative
  | .cast value _ _ _ => Mentions value
  | .assigned value _ => Mentions value
  | .method _ parameters _ body locals =>
    (∀ p ∈ parameters, g.names.resolve p.name ≠ some name) ∧
      (MentionsDefault parameters ∨ MentionsLocal? locals ∨
        ((∀ l ∈ locals.getD [], g.names.resolve l.name ≠ some name) ∧ MentionsStatement body))
  | .anonymousType _ _ => False

/-- A member without a site is a name. -/
def MentionsSite (selection : Selection) : Option Expr → Prop
  | none => g.names.resolve selection.name = some name
  | some site => Mentions site

def MentionsExpr? : Option Expr → Prop
  | none => False
  | some e => Mentions e

def MentionsAny : List Expr → Prop
  | [] => False
  | e :: es => Mentions e ∨ MentionsAny es

def MentionsEntry : List (Expr × Expr) → Prop
  | [] => False
  | (key, value) :: entries => Mentions key ∨ Mentions value ∨ MentionsEntry entries

def MentionsArgument : List Argument → Prop
  | [] => False
  | ⟨_, value, _⟩ :: arguments => Mentions value ∨ MentionsArgument arguments

def MentionsDefault : List Parameter → Prop
  | [] => False
  | ⟨_, _, _, value⟩ :: parameters => MentionsExpr? value ∨ MentionsDefault parameters

/-- A local variable is bound in the values of those that follow it. -/
def MentionsLocal : List Declaration → Prop
  | [] => False
  | ⟨declared, _, value, _⟩ :: locals =>
    MentionsExpr? value ∨ (g.names.resolve declared ≠ some name ∧ MentionsLocal locals)

def MentionsLocal? : Option (List Declaration) → Prop
  | none => False
  | some locals => MentionsLocal locals

def MentionsIn : Statement → Prop
  | .expression value => Mentions value
  | .declaration ⟨_, _, value, _⟩ => MentionsExpr? value
  | .assignment target value => Mentions target ∨ Mentions value
  | .result value => MentionsExpr? value
  | .block body => MentionsStatement body

def MentionsStatement : List Statement → Prop
  | [] => False
  | s :: statements => MentionsIn s ∨ (¬ Declares g name s ∧ MentionsStatement statements)

end

end Mentions

/-- The form of a node in Lua binds a name that parts inside of it mention: a guard binds `t` around
the arguments of a call, and a construction binds `o` around the values of its initializers. -/
def Captures (g : Setting) : Node → Prop
  | .expression (.call (some _) selection arguments optional) =>
    (selection.nilSafe || optional) = true ∧ MentionsArgument g "t" arguments
  | .expression (.construct _ _ _ initializers) => MentionsArgument g "o" initializers
  | _ => False

def SomeCaptures (g : Setting) (nodes : List Node) : Prop := ∃ node ∈ nodes, Captures g node

variable {g : Setting} {nodes others : List Node}

@[simp] theorem not_someCaptures_nil : ¬ SomeCaptures g [] := by simp [SomeCaptures]

@[simp] theorem someCaptures_cons {node : Node} :
    SomeCaptures g (node :: nodes) ↔ Captures g node ∨ SomeCaptures g nodes := by
  simp [SomeCaptures]

@[simp] theorem someCaptures_append :
    SomeCaptures g (nodes ++ others) ↔ SomeCaptures g nodes ∨ SomeCaptures g others := by
  simp [SomeCaptures, or_and_right, exists_or]

end CodeTree.Lua
