import CodeTree.Proofs.Emission.Text
import CodeTree.Proofs.Reading.Token

/-! # Local declarations

The locals that are declared in a tree, in the order of the text: those of its methods and statements,
and the object under construction, which the emitter declares itself. In a text they can be told from
the keyword, if no name is this keyword.

* `localsOf`, `localsOfStatements`: the locals of a tree, each with whether it is constant.
* `declaredLocals`: the locals that are declared in some tokens, each with whether it has an
  attribute. -/

namespace CodeTree.Lua

set_option autoImplicit false

/-! ## In trees -/

section Trees

variable (names : NameTable)

/-- The local of a declaration. -/
def localOf (name : Symbol) (constant : Bool) : List (String × Bool) :=
  (names.resolve name).toList.map fun text => (text, constant)

/-- The object under construction, if properties are assigned to it. -/
def constructedLocal : List Argument → List (String × Bool)
  | [] => []
  | _ :: _ => [("o", false)]

mutual

/-- The locals that are declared in an expression, in the order of the text. -/
def localsOf : Expr → List (String × Bool)
  | .shared _ | .atom _ | .allocate _ _ _ _ | .anonymousType _ _ => []
  | .array elements _ => localsOfExprs elements
  | .dictionary entries => localsOfEntries entries
  | .tuple elements => localsOfExprs elements
  | .unary _ operand => localsOf operand
  | .binary _ left right => localsOf left ++ localsOf right
  | .field site _ => localsOf? site
  | .call site selection arguments optional =>
    if selection.nilSafe || optional then localsOfArguments arguments ++ localsOf? site
    else localsOf? site ++ localsOfArguments arguments
  | .property site _ indices => localsOf? site ++ localsOfArguments indices
  | .construct _ _ arguments initializers =>
    constructedLocal initializers ++ (localsOfArguments arguments ++ localsOfArguments initializers)
  | .element array indices => localsOf array ++ localsOfExprs indices
  | .wrapped _ inner => localsOf inner
  | .conditional condition consequence alternative =>
    localsOf condition ++ localsOf consequence ++ localsOf? alternative
  | .cast value _ _ _ => localsOf value
  | .assigned value _ => localsOf value
  | .method _ parameters _ body locals =>
    localsOfDefaults parameters ++ localsOfLocals? locals ++ localsOfStatements body

def localsOf? : Option Expr → List (String × Bool)
  | none => []
  | some e => localsOf e

def localsOfExprs : List Expr → List (String × Bool)
  | [] => []
  | e :: es => localsOf e ++ localsOfExprs es

def localsOfEntries : List (Expr × Expr) → List (String × Bool)
  | [] => []
  | (key, value) :: entries => localsOf key ++ localsOf value ++ localsOfEntries entries

def localsOfArguments : List Argument → List (String × Bool)
  | [] => []
  | ⟨_, value, _⟩ :: arguments => localsOf value ++ localsOfArguments arguments

def localsOfDefaults : List Parameter → List (String × Bool)
  | [] => []
  | ⟨_, _, _, value⟩ :: parameters => localsOf? value ++ localsOfDefaults parameters

def localsOfLocals : List Declaration → List (String × Bool)
  | [] => []
  | ⟨name, _, value, constant⟩ :: locals =>
    localOf names name constant ++ localsOf? value ++ localsOfLocals locals

def localsOfLocals? : Option (List Declaration) → List (String × Bool)
  | none => []
  | some locals => localsOfLocals locals

def localsOfStatement : Statement → List (String × Bool)
  | .expression value => localsOf value
  | .declaration ⟨name, _, value, constant⟩ => localOf names name constant ++ localsOf? value
  | .assignment target value => localsOf target ++ localsOf value
  | .result value => localsOf? value
  | .block body => localsOfStatements body

def localsOfStatements : List Statement → List (String × Bool)
  | [] => []
  | s :: statements => localsOfStatement s ++ localsOfStatements statements

end

end Trees

/-! ## In tokens -/

/-- The text of a name or of a reserved word. -/
def Token.word? : Token → Option String
  | .keyword word => some word.text
  | .name text => some text
  | _ => none

/-- Whether the tokens go on with an attribute. Behind the name of a local `<` cannot be anything
else. -/
def opensAttribute (tokens : List Token) : Bool := decide (tokens.head? = some (.mark .less))

/-- The locals that are declared in some tokens, each with whether it has an attribute. -/
def declaredLocals : List Token → List (String × Bool)
  | [] => []
  | t :: ts =>
    (if t = .keyword .localWord then
      (ts.head?.bind Token.word?).toList.map fun word => (word, opensAttribute ts.tail)
    else []) ++ declaredLocals ts

theorem declaredLocals_append {ts us : List Token} (h : .keyword .localWord ∉ ts) :
    declaredLocals (ts ++ us) = declaredLocals us := by
  induction ts with
  | nil => rfl
  | cons t ts ih =>
    rw [List.mem_cons, not_or] at h
    rw [List.cons_append, declaredLocals, if_neg (Ne.symm h.1), ih h.2]
    rfl

theorem Keyword.find_text {k : Keyword} {word : String} (h : Keyword.ofText? word = some k) :
    k.text = word := by
  simpa using List.find?_some h

theorem word?_ofWord (word : String) : (Token.ofWord word).word? = some word := by
  rw [Token.ofWord]
  cases hword : Keyword.ofText? word with
  | none => rfl
  | some k => exact congrArg some (Keyword.find_text hword)

theorem ofWord_eq_local {word : String} : Token.ofWord word = .keyword .localWord ↔ word = "local" := by
  constructor
  · intro h
    have hword := word?_ofWord word
    rw [h] at hword
    exact (Option.some.inj hword).symm
  · rintro rfl
    rfl

end CodeTree.Lua
