import CodeTree.Proofs.Lexical.Quoted
import CodeTree.Proofs.Reading.Grammar

/-! # Evaluation of Lua with effects

What the evaluation of a syntax tree does, step by step in the order of Lua, and the values it ends
with. What Lua leaves to numbers, strings, tables, global variables and foreign functions is a world:
its operations run in any monad, may fail, and may call functions in turn, as metamethods do. Calls are
nested up to some depth.

A variable that is assigned to is a cell; of one that never is only the value matters. A function keeps
the variables that occur in it.

* `Datum`, `Slot`: values, and what names are bound to.
* `Exp.uses`: the names that are free in an expression, each with whether it is assigned to.
* `World`: the operations that are left open.
* `World.eval`, `World.evalStats` and `World.apply`: expressions, statements and calls.
* `World.eval_congr`: an evaluation depends on the free names only. -/

namespace CodeTree.Lua

set_option autoImplicit false

/-! ## Values -/

mutual

/-- A value. What is neither nil nor a truth value nor a function written in Lua is foreign. -/
inductive Datum (φ : Type)
  | nil
  | boolean (value : Bool)
  | foreign (value : φ)
  | closure (parameters : List String) (body : List (Stat String)) (scope : String → Slot φ)

/-- What a name is bound to. -/
inductive Slot (φ : Type)
  | global
  | value (value : Datum φ)
  | cell (location : Nat)

end

namespace Datum

variable {φ : Type}

def isNil : Datum φ → Bool
  | nil => true
  | _ => false

/-- All values but nil and false are true. -/
def isTrue : Datum φ → Bool
  | nil | boolean false => false
  | _ => true

/-- Several values where one is asked for. -/
def first (values : List (Datum φ)) : Datum φ := values.headD nil

end Datum

/-! ## Free names -/

/-- A name that is assigned to. -/
def Exp.assigned : Exp String → List (String × Bool)
  | name n => [(n, true)]
  | _ => []

def Stat.declared? : Stat String → Option String
  | declare n _ _ => some n
  | _ => none

mutual

/-- The free names of an expression, each with whether it is assigned to. -/
def Exp.uses : Exp String → List (String × Bool)
  | .nil | .boolean _ | .numeral _ | .string _ => []
  | .name n => [(n, false)]
  | .field x _ => x.uses
  | .index x key => x.uses ++ key.uses
  | .call f arguments => f.uses ++ usesExps arguments
  | .invoke x _ arguments => x.uses ++ usesExps arguments
  | .paren x => x.uses
  | .unary _ x => x.uses
  | .binary _ x y => x.uses ++ y.uses
  | .table fields => usesFields fields
  | .function parameters body => (usesStats body).filter fun use => use.1 ∉ parameters

def usesExps : List (Exp String) → List (String × Bool)
  | [] => []
  | x :: xs => x.uses ++ usesExps xs

def TableField.uses : TableField String → List (String × Bool)
  | .item value => value.uses
  | .keyed key value => key.uses ++ value.uses

def usesFields : List (TableField String) → List (String × Bool)
  | [] => []
  | f :: fs => f.uses ++ usesFields fs

def Stat.uses : Stat String → List (String × Bool)
  | .empty => []
  | .declare _ _ values => usesExps values
  | .assign target value => target.assigned ++ target.uses ++ value.uses
  | .call x => x.uses
  | .block body => usesStats body
  | .conditional condition consequence alternative =>
    condition.uses ++ usesStats consequence ++ usesStats alternative
  | .result values => usesExps values

def usesStats : List (Stat String) → List (String × Bool)
  | [] => []
  | s :: statements => s.uses ++ (usesStats statements).filter fun use => s.declared? ≠ some use.1

end

/-- Whether a name is assigned to in statements. -/
def assigns (statements : List (Stat String)) (name : String) : Bool :=
  (usesStats statements).contains (name, true)

/-! ## Worlds -/

/-- How functions are called. -/
abbrev Caller (φ : Type) (m : Type → Type) := Datum φ → List (Datum φ) → m (List (Datum φ))

/-- The operations that are left open. Those that can call functions are given how. Equality with nil
and calls of functions written in Lua are not left open. -/
structure World (φ : Type) (m : Type → Type) where
  numeral : String → Datum φ
  string : List UInt8 → Datum φ
  readGlobal : Caller φ m → String → m (Datum φ)
  writeGlobal : Caller φ m → String → Datum φ → m Unit
  newCell : Datum φ → m Nat
  readCell : Nat → m (Datum φ)
  writeCell : Nat → Datum φ → m Unit
  newTable : List (Option (Datum φ) × Datum φ) → m (Datum φ)
  index : Caller φ m → Datum φ → Datum φ → m (Datum φ)
  writeIndex : Caller φ m → Datum φ → Datum φ → Datum φ → m Unit
  unary : Caller φ m → UnaryOp → Datum φ → m (Datum φ)
  binary : Caller φ m → BinaryOp → Datum φ → Datum φ → m (Datum φ)
  callForeign : Caller φ m → Caller φ m
  /-- What happens when calls are nested too deep. -/
  tooDeep : m (List (Datum φ))

namespace World

open Datum

variable {φ : Type} {m : Type → Type} [Monad m] (W : World φ m)

/-- The member of a value. -/
def member (call : Caller φ m) (v : Datum φ) (name : String) : m (Datum φ) :=
  W.index call v (W.string (bytesOf name.toList))

def readSlot (call : Caller φ m) (name : String) : Slot φ → m (Datum φ)
  | .global => W.readGlobal call name
  | .value v => pure v
  | .cell location => W.readCell location

/-- What is assigned to is a global variable or a cell. -/
def writeSlot (call : Caller φ m) (name : String) (v : Datum φ) : Slot φ → m Unit
  | .global => W.writeGlobal call name v
  | .value _ => pure ()
  | .cell location => W.writeCell location v

def newSlot (isAssigned : Bool) (v : Datum φ) : m (Slot φ) :=
  if isAssigned then .cell <$> W.newCell v else pure (.value v)

/-- An operation with its operand evaluated. -/
def operateOn (call : Caller φ m) (op : UnaryOp) (v : Datum φ) : m (Datum φ) :=
  match op with
  | .not => pure (.boolean (!v.isTrue))
  | op => W.unary call op v

/-- An operation with both operands evaluated. Nothing but nil is equal to nil. -/
def operate (call : Caller φ m) (op : BinaryOp) (v w : Datum φ) : m (Datum φ) :=
  match op with
  | .equal => if v.isNil || w.isNil then pure (.boolean (v.isNil && w.isNil)) else W.binary call .equal v w
  | .notEqual =>
    if v.isNil || w.isNil then pure (.boolean (!(v.isNil && w.isNil))) else W.binary call .notEqual v w
  | op => W.binary call op v w

end World

/-! ## Scopes -/

section Scopes

variable {φ : Type}

def rebind (scope : String → Slot φ) (name : String) (slot : Slot φ) : String → Slot φ :=
  fun other => if other = name then slot else scope other

/-- The part of a scope that a function keeps. -/
def captured (scope : String → Slot φ) (uses : List (String × Bool)) : String → Slot φ :=
  fun name => if name ∈ uses.map Prod.fst then scope name else .global

/-- All values of the last expression of a list, and the first one of the others. -/
def spread (isLast : Bool) (values : List (Datum φ)) : List (Datum φ) :=
  if isLast then values else [Datum.first values]

/-- What a statement does: nothing that shows, the declaration of a local, or a return. -/
inductive Outcome (φ : Type)
  | passed
  | bound (name : String) (slot : Slot φ)
  | returned (values : List (Datum φ))

def Outcome.ofResult : Option (List (Datum φ)) → Outcome φ
  | some values => returned values
  | none => passed

end Scopes

/-! ## Evaluation -/

namespace World

open Datum

variable {φ : Type} {m : Type → Type} [Monad m] (W : World φ m)

/-- A scope with the parameters of a function. Missing arguments are nil, others are dropped. -/
def bindAll (isAssigned : String → Bool) :
    (String → Slot φ) → List String → List (Datum φ) → m (String → Slot φ)
  | scope, [], _ => pure scope
  | scope, p :: parameters, arguments => do
    let slot ← W.newSlot (isAssigned p) (first arguments)
    bindAll isAssigned (rebind scope p slot) parameters arguments.tail

section Evaluation

variable (call : Caller φ m)

mutual

/-- The values of an expression in a scope, given how functions are called. -/
def eval (scope : String → Slot φ) : Exp String → m (List (Datum φ))
  | .nil => pure [nil]
  | .boolean value => pure [boolean value]
  | .numeral text => pure [W.numeral text]
  | .string value => pure [W.string value]
  | .name n => do
    let v ← W.readSlot call n (scope n)
    return [v]
  | .field x member => do
    let vs ← eval scope x
    let v ← W.member call (first vs) member
    return [v]
  | .index x key => do
    let vs ← eval scope x
    let ks ← eval scope key
    let v ← W.index call (first vs) (first ks)
    return [v]
  | .call f arguments => do
    let fs ← eval scope f
    let vs ← evalList scope arguments
    call (first fs) vs
  | .invoke x member arguments => do
    let vs ← eval scope x
    let f ← W.member call (first vs) member
    let ws ← evalList scope arguments
    call f (first vs :: ws)
  | .paren x => do
    let vs ← eval scope x
    return [first vs]
  | .unary op x => do
    let vs ← eval scope x
    let v ← W.operateOn call op (first vs)
    return [v]
  | .binary op x y => do
    let vs ← eval scope x
    match op with
    | .and => if (first vs).isTrue then return [first (← eval scope y)] else return [first vs]
    | .or => if (first vs).isTrue then return [first vs] else return [first (← eval scope y)]
    | op =>
      let ws ← eval scope y
      let v ← W.operate call op (first vs) (first ws)
      return [v]
  | .table fields => do
    let entries ← evalFields scope fields
    let v ← W.newTable entries
    return [v]
  | .function parameters body =>
    pure [closure parameters body (captured scope (Exp.function parameters body).uses)]

def evalList (scope : String → Slot φ) : List (Exp String) → m (List (Datum φ))
  | [] => pure []
  | x :: xs => do
    let vs ← eval scope x
    let ws ← evalList scope xs
    return spread xs.isEmpty vs ++ ws

/-- The entries of a table. Those without a key are counted. -/
def evalFields (scope : String → Slot φ) :
    List (TableField String) → m (List (Option (Datum φ) × Datum φ))
  | [] => pure []
  | .item value :: fields => do
    let vs ← eval scope value
    let entries ← evalFields scope fields
    return (spread fields.isEmpty vs).map (none, ·) ++ entries
  | .keyed key value :: fields => do
    let ks ← eval scope key
    let vs ← eval scope value
    let entries ← evalFields scope fields
    return (some (first ks), first vs) :: entries

end

mutual

/-- What a statement does, given which names are assigned to in what follows it. -/
def evalStat (isAssigned : String → Bool) (scope : String → Slot φ) : Stat String → m (Outcome φ)
  | .empty => pure .passed
  | .declare n _ values => do
    let vs ← W.evalList call scope values
    let slot ← W.newSlot (isAssigned n) (first vs)
    return .bound n slot
  | .assign (.name n) value => do
    let vs ← W.eval call scope value
    W.writeSlot call n (first vs) (scope n)
    return .passed
  | .assign (.field x member) value => do
    let xs ← W.eval call scope x
    let vs ← W.eval call scope value
    W.writeIndex call (first xs) (W.string (bytesOf member.toList)) (first vs)
    return .passed
  | .assign (.index x key) value => do
    let xs ← W.eval call scope x
    let ks ← W.eval call scope key
    let vs ← W.eval call scope value
    W.writeIndex call (first xs) (first ks) (first vs)
    return .passed
  -- Nothing else is a variable.
  | .assign _ _ => pure .passed
  | .call x => do
    let _ ← W.eval call scope x
    return .passed
  | .block body => do
    let result ← evalStats scope body
    return .ofResult result
  | .conditional condition consequence alternative => do
    let vs ← W.eval call scope condition
    let result ←
      if (first vs).isTrue then evalStats scope consequence else evalStats scope alternative
    return .ofResult result
  | .result values => do
    let vs ← W.evalList call scope values
    return .returned vs

/-- What statements return, if they do. -/
def evalStats (scope : String → Slot φ) : List (Stat String) → m (Option (List (Datum φ)))
  | [] => pure none
  | s :: statements => do
    match ← evalStat (assigns statements) scope s with
    | .passed => evalStats scope statements
    | .bound n slot => evalStats (rebind scope n slot) statements
    | .returned vs => return some vs

end

/-- The value of an expression where one is asked for. -/
def value (scope : String → Slot φ) (x : Exp String) : m (Datum φ) := first <$> W.eval call scope x

end Evaluation

/-- The results of a call in which calls are nested up to some depth. A function that does not return
gives none. -/
def apply : Nat → Caller φ m
  | 0, _, _ => W.tooDeep
  | depth + 1, .closure parameters body scope, arguments => do
    let scope ← W.bindAll (assigns body) scope parameters arguments
    let result ← W.evalStats (apply depth) scope body
    return result.getD []
  | depth + 1, f, arguments => W.callForeign (apply depth) f arguments

/-! ## What an evaluation depends on -/

section Congruence

variable {W} {call : Caller φ m}

/-- Two scopes bind some names alike. -/
def Alike (uses : List (String × Bool)) (scope scope' : String → Slot φ) : Prop :=
  ∀ use ∈ uses, scope use.1 = scope' use.1

theorem alike_append {uses uses' : List (String × Bool)} {scope scope' : String → Slot φ} :
    Alike (uses ++ uses') scope scope' ↔ Alike uses scope scope' ∧ Alike uses' scope scope' :=
  List.forall_mem_append

theorem Alike.captured {uses : List (String × Bool)} {scope scope' : String → Slot φ}
    (h : Alike uses scope scope') : captured scope uses = captured scope' uses := by
  funext name
  rw [CodeTree.Lua.captured, CodeTree.Lua.captured]
  split
  · rename_i hname
    obtain ⟨use, huse, rfl⟩ := List.mem_map.1 hname
    exact h use huse
  · rfl

mutual

/-- The values of an expression depend on its free names only. -/
theorem eval_congr : ∀ (x : Exp String) {scope scope' : String → Slot φ},
    Alike x.uses scope scope' → W.eval call scope x = W.eval call scope' x
  | .nil, _, _, _ | .boolean _, _, _, _ | .numeral _, _, _, _ | .string _, _, _, _ => by
    simp only [eval]
  | .name n, scope, scope', h => by
    have hn : scope n = scope' n := h (n, false) List.mem_cons_self
    simp only [eval, hn]
  | .field x member, _, _, h => by
    simp only [eval, eval_congr x h]
  | .index x key, _, _, h => by
    rw [Exp.uses, alike_append] at h
    simp only [eval, eval_congr x h.1, eval_congr key h.2]
  | .call f arguments, _, _, h => by
    rw [Exp.uses, alike_append] at h
    simp only [eval, eval_congr f h.1, evalList_congr arguments h.2]
  | .invoke x member arguments, _, _, h => by
    rw [Exp.uses, alike_append] at h
    simp only [eval, eval_congr x h.1, evalList_congr arguments h.2]
  | .paren x, _, _, h => by
    simp only [eval, eval_congr x h]
  | .unary op x, _, _, h => by
    simp only [eval, eval_congr x h]
  | .binary op x y, _, _, h => by
    rw [Exp.uses, alike_append] at h
    simp only [eval, eval_congr x h.1, eval_congr y h.2]
  | .table fields, _, _, h => by
    simp only [eval, evalFields_congr fields h]
  | .function parameters body, _, _, h => by
    simp only [eval, h.captured]

theorem evalList_congr : ∀ (xs : List (Exp String)) {scope scope' : String → Slot φ},
    Alike (usesExps xs) scope scope' → W.evalList call scope xs = W.evalList call scope' xs
  | [], _, _, _ => by simp only [evalList]
  | x :: xs, _, _, h => by
    rw [usesExps, alike_append] at h
    simp only [evalList, eval_congr x h.1, evalList_congr xs h.2]

theorem evalFields_congr : ∀ (fields : List (TableField String)) {scope scope' : String → Slot φ},
    Alike (usesFields fields) scope scope' →
      W.evalFields call scope fields = W.evalFields call scope' fields
  | [], _, _, _ => by simp only [evalFields]
  | .item value :: fields, _, _, h => by
    rw [usesFields, TableField.uses, alike_append] at h
    simp only [evalFields, eval_congr value h.1, evalFields_congr fields h.2]
  | .keyed key value :: fields, _, _, h => by
    rw [usesFields, TableField.uses, alike_append, alike_append] at h
    simp only [evalFields, eval_congr key h.1.1, eval_congr value h.1.2, evalFields_congr fields h.2]

end

end Congruence

end World

end CodeTree.Lua
