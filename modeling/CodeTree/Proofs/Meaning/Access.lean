import CodeTree.Proofs.Meaning.Effects
import CodeTree.Proofs.Reading.Suffixes

/-! # Accesses that are left out

A nil-safe access is written as a function of its site, which returns nil early. What the access does
with the value of its site is inside of the function, so that nothing of it happens if the site is nil;
the indices of a property are written behind the call of the function, and the property is indexed also
when it is nil.

* `World.select`: what an access does with the value of its site.
* `World.guard`: an access that is left out if its site is nil.
* `World.eval_guarded`: a guarded access evaluates its site first and once.
* `Denotes`: the text of an expression is that of an expression of Lua.
* `eval_nilSafe_access`: what the text of a nil-safe access evaluates. -/

namespace CodeTree

namespace Lua

set_option autoImplicit false

namespace World

open Datum

variable {φ : Type} {m : Type → Type} [Monad m] [LawfulMonad m] {W : World φ m} {call : Caller φ m}
  {scope : String → Slot φ} {x : Exp String} {member : String} {isType optional : Bool}
  {arguments : Option (List (Exp String))}

/-- What an access does with the value of its site. -/
def select (W : World φ m) (call : Caller φ m) (scope : String → Slot φ) (isType : Bool)
    (member : String) (arguments : Option (List (Exp String))) (v : Datum φ) :
    m (List (Datum φ)) := do
  let f ← W.member call v member
  match arguments with
  | none => return [f]
  | some xs =>
    let vs ← W.evalList call scope xs
    call f (if isType then vs else v :: vs)

/-- An access that is left out if its site is nil, and if it is optional also if there is no member. -/
def guard (W : World φ m) (call : Caller φ m) (optional : Bool) (member : String)
    (access : Datum φ → m (List (Datum φ))) (v : Datum φ) : m (List (Datum φ)) :=
  if v.isNil then pure [nil]
  else if optional then do
    let f ← W.member call v member
    if f.isNil then pure [nil] else access v
  else access v

/-- What the keys of an index expression do with the values of what they index. -/
def subscript (W : World φ m) (call : Caller φ m) (scope : String → Slot φ) :
    List (Exp String) → List (Datum φ) → m (List (Datum φ))
  | [], vs => pure vs
  | key :: keys, vs => do
    let k ← W.value call scope key
    let v ← W.index call (first vs) k
    subscript W call scope keys [v]

theorem eval_selected :
    W.eval call scope (selected x isType member arguments) =
      W.value call scope x >>= W.select call scope isType member arguments := by
  cases arguments with
  | none => simp [selected, eval, value, select]
  | some xs => cases isType <;> simp [selected, eval, value, select, first]

omit [LawfulMonad m] in
theorem operate_equal_nil (v : Datum φ) : W.operate call .equal v nil = pure (boolean v.isNil) := by
  simp [operate, isNil]

theorem value_name {n : String} {v : Datum φ} (h : scope n = .value v) :
    W.value call scope (.name n) = pure v := by
  simp [value, eval, h, readSlot, first]

theorem value_field (y : Exp String) :
    W.value call scope (.field y member) = W.value call scope y >>= fun v => W.member call v member := by
  simp [value, eval, first]

theorem value_equal_nil (y : Exp String) :
    W.value call scope (.binary .equal y .nil) =
      W.value call scope y >>= fun v => pure (boolean v.isNil) := by
  simp [value, eval, first, operate_equal_nil]

theorem value_or (y z : Exp String) :
    W.value call scope (.binary .or y z) =
      W.value call scope y >>= fun v => if v.isTrue then pure v else W.value call scope z := by
  simp only [value, eval, map_eq_pure_bind, bind_assoc, pure_bind]
  refine bind_congr fun vs => ?_
  split <;> simp [first]

/-- The condition of a guard is true if the site is nil, and if there is no member to call. -/
theorem value_guardExp {v : Datum φ} (h : scope "t" = .value v) :
    W.value call scope (guardExp (fun _ name => name) true optional member) =
      if v.isNil then pure (boolean true)
      else if optional then do
        let f ← W.member call v member
        return boolean f.isNil
      else pure (boolean false) := by
  have ht : W.value call scope (.name "t") = pure v := value_name h
  cases optional <;> cases hv : v.isNil <;>
    simp [guardExp, own, value_or, value_field, value_equal_nil, ht, hv, Datum.isTrue]

theorem evalStats_result (y : Exp String) (rest : List (Stat String)) :
    W.evalStats call scope (.result [y] :: rest) = some <$> W.eval call scope y := by
  simp [evalStats, evalStat, evalList, spread]

theorem evalStats_conditional (condition : Exp String) (consequence rest : List (Stat String)) :
    W.evalStats call scope (.conditional condition consequence [] :: rest) =
      W.value call scope condition >>= fun v =>
        if v.isTrue then do
          match ← W.evalStats call scope consequence with
          | some vs => return some vs
          | none => W.evalStats call scope rest
        else W.evalStats call scope rest := by
  simp only [evalStats, evalStat, value, map_eq_pure_bind, bind_assoc, pure_bind]
  refine bind_congr fun vs => ?_
  cases (first vs).isTrue with
  | false => simp [Outcome.ofResult]
  | true =>
    simp only [if_true, bind_assoc, pure_bind]
    refine bind_congr fun result => ?_
    cases result <;> rfl

/-- The body of the function of a guard. -/
def guardBody (isType optional : Bool) (member : String) (arguments : Option (List (Exp String))) :
    List (Stat String) :=
  [.conditional (guardExp (fun _ name => name) true optional member) [.result [.nil]] [],
    .result [selected (.name "t") isType member arguments]]

theorem guarded_eq : guarded (fun _ name => name) x isType true optional member arguments =
    .call (.paren (.function ["t"] (guardBody isType optional member arguments))) [x] := rfl

/-- The body of a guard, with the value of the site at hand. -/
theorem evalStats_guardBody {v : Datum φ} (h : scope "t" = .value v) :
    W.evalStats call scope (guardBody isType optional member arguments) =
      some <$> W.guard call optional member (W.select call scope isType member arguments) v := by
  have hnil : W.evalStats call scope [.result [.nil]] = pure (some [nil]) := by
    simp [evalStats_result, eval]
  have hselected : W.evalStats call scope [.result [selected (.name "t") isType member arguments]] =
      some <$> W.select call scope isType member arguments v := by
    rw [evalStats_result, eval_selected, value_name h, pure_bind]
  rw [guardBody, evalStats_conditional, value_guardExp h, guard, hnil, hselected]
  cases v.isNil with
  | true => simp [Datum.isTrue]
  | false =>
    cases optional with
    | false => simp [Datum.isTrue]
    | true =>
      simp only [Bool.false_eq_true, if_false, if_true, bind_assoc, pure_bind, map_bind]
      refine bind_congr fun f => ?_
      cases f.isNil <;> simp [Datum.isTrue]

theorem mem_usesStats_guardBody {use : String × Bool} :
    use ∈ usesStats (guardBody isType optional member arguments) ↔
      use = ("t", false) ∨ ∃ xs ∈ arguments, use ∈ usesExps xs := by
  cases optional <;> cases arguments <;> cases isType <;>
    simp [guardBody, usesStats, Stat.uses, Stat.declared?, guardExp, own, selected, Exp.uses, usesExps]

omit [LawfulMonad m] in
theorem select_congr {scope' : String → Slot φ}
    (h : ∀ xs ∈ arguments, Alike (usesExps xs) scope scope') :
    W.select call scope isType member arguments = W.select call scope' isType member arguments := by
  funext v
  cases arguments with
  | none => rfl
  | some xs => simp only [select, evalList_congr xs (h xs rfl)]

/-- A call of the function of a guard, in the scope that it keeps. -/
theorem apply_guardBody (hfree : ∀ xs ∈ arguments, ∀ use ∈ usesExps xs, use.1 ≠ "t") (depth : Nat)
    (vs : List (Datum φ)) :
    W.apply (depth + 1) (closure ["t"] (guardBody isType optional member arguments)
        (captured scope (Exp.function ["t"] (guardBody isType optional member arguments)).uses)) vs =
      W.guard (W.apply depth) optional member
        (W.select (W.apply depth) scope isType member arguments) (first vs) := by
  have hassigns : assigns (guardBody isType optional member arguments) "t" = false := by
    rw [assigns, List.contains_eq_mem, decide_eq_false_iff_not, mem_usesStats_guardBody]
    rintro (h | ⟨xs, hxs, huse⟩)
    · exact nomatch h
    · exact hfree xs hxs _ huse rfl
  have halike : ∀ xs ∈ arguments, Alike (usesExps xs)
      (rebind (captured scope (Exp.function ["t"] (guardBody isType optional member arguments)).uses)
        "t" (.value (first vs))) scope := by
    intro xs hxs use huse
    have hname : use.1 ≠ "t" := hfree xs hxs use huse
    have hkept : use ∈ (Exp.function ["t"] (guardBody isType optional member arguments)).uses := by
      rw [Exp.uses, List.mem_filter, mem_usesStats_guardBody]
      exact ⟨Or.inr ⟨xs, hxs, huse⟩, by simpa using hname⟩
    rw [rebind, if_neg hname, captured, if_pos (List.mem_map_of_mem hkept)]
  simp only [apply, bindAll, newSlot, hassigns, Bool.false_eq_true, if_false, pure_bind]
  rw [evalStats_guardBody (v := first vs) (by simp [rebind]), select_congr halike]
  simp

/-- A guarded access evaluates its site and nothing else before it, and goes on with the value as the
access does, unless this is left out. What follows is nested one call deeper. -/
theorem eval_guarded (hfree : ∀ xs ∈ arguments, ∀ use ∈ usesExps xs, use.1 ≠ "t") (depth : Nat) :
    W.eval (W.apply (depth + 1)) scope
        (guarded (fun _ name => name) x isType true optional member arguments) =
      W.value (W.apply (depth + 1)) scope x >>=
        W.guard (W.apply depth) optional member
          (W.select (W.apply depth) scope isType member arguments) := by
  simp only [guarded_eq, eval, evalList, spread, List.isEmpty_nil, if_true, pure_bind, bind_assoc,
    List.append_nil, value, map_eq_pure_bind]
  refine bind_congr fun vs => ?_
  exact apply_guardBody hfree depth vs

theorem eval_indexed (y : Exp String) (keys : List (Exp String)) :
    W.eval call scope (indexed y keys) = W.eval call scope y >>= W.subscript call scope keys := by
  induction keys generalizing y with
  | nil => exact (bind_pure _).symm
  | cons key keys ih =>
    show W.eval call scope (indexed (.index y key) keys) = _
    rw [ih]
    simp only [eval, bind_assoc, pure_bind]
    refine bind_congr fun vs => ?_
    simp [subscript, value]

end World

/-! ## The texts of accesses -/

/-- The text of an expression of the tree, with raw code or not, is that of an expression of Lua. -/
structure Denotes (g : Setting) (e : Expr) (x : Exp String) : Prop where
  wf : x.WF
  spells : ∀ n w, Yields (emitExpr g e) n () w → Spells x.endsNumeral w (x.tokens id)
  opens : ∀ n w, Yields (emitExpr g e) n () w → ∃ c cs, w = c :: cs ∧ c ≠ '[' ∧ c ≠ '='

def DenotesAll (g : Setting) (arguments : List Argument) (xs : List (Exp String)) : Prop :=
  List.Forall₂ (fun argument x => Denotes g argument.value x) arguments xs

section Denotes

variable {g : Setting} {e : Expr} {x y : Exp String} {arguments : List Argument}
  {xs : List (Exp String)} {n : Nat} {v w : List Char}

theorem denotes_of_written (hwf : x.WF)
    (hwritten : ∀ n w, Yields (emitExpr g e) n () w → Written id w x) : Denotes g e x := by
  refine ⟨hwf, fun n w hw => (hwritten n w hw).spells, fun n w hw => ?_⟩
  obtain ⟨c, cs, rfl, hc, -⟩ := (hwritten n w hw).opens
  exact ⟨c, cs, rfl, isOpening_ne hc rfl, isOpening_ne hc rfl⟩

/-- Without raw code and custom operators an expression denotes its syntax tree. -/
theorem denotes_toLua? {methods : Prop} (hspellable : ∀ node ∈ e.rendered, Spellable g node)
    (hcomposed : ∀ node ∈ e.rendered, Composed (fun _ name => name) g methods node)
    (hx : toLua? (fun _ name => name) g e = some x) : Denotes g e x := by
  refine denotes_of_written (solid_toLua? e hcomposed hx).wf fun n w hw => ?_
  have hsome : ∃ y, toLua? (fun _ name => name) g e = some y ∧ Written id w y :=
    written_emitExpr (fun _ _ => rfl) e hspellable hw
  obtain ⟨y, hy, hwritten⟩ := hsome
  obtain rfl : x = y := Option.some.inj (hx.symm.trans hy)
  exact hwritten

theorem denotes_identifier {s : Symbol} {name : String} (hs : g.names.resolve s = some name)
    (hname : isName name = true) : Denotes g (.identifier s) (.name name) := by
  have hnames : ∀ text ∈ g.names.resolve s, isName text = true := by
    intro text htext
    obtain rfl : name = text := Option.some.inj (hs.symm.trans htext)
    exact hname
  have hx : toLua? (fun _ name => name) g (.identifier s) = some (.name name) := by
    simp [Expr.identifier, toLua?, atomExp?, hs, given]
  refine denotes_toLua? (fun node hnode => ?_) (fun node hnode => Regular.composed ?_) hx
  · obtain rfl : node = .expression (.identifier s) := List.mem_singleton.1 hnode
    exact ⟨rfl, rfl, fun s hs => by simpa [List.mem_singleton.1 hs] using hnames, List.forall_mem_nil _⟩
  · obtain rfl : node = .expression (.identifier s) := List.mem_singleton.1 hnode
    exact ⟨rfl, rfl, List.forall_mem_nil _⟩

theorem Denotes.readExpression (h : Denotes g e x) (hw : Yields (emitExpr g e) n () w) :
    readExpression (String.ofList w) = some x := by
  have hlex := h.spells n w hw [] nofun
  have hparse : List.parseExp 0 (x.tokens id ++ []) = some (x, []) := parseExp_tokens h.wf nofun
  rw [List.append_nil, lex_nil, List.append_nil] at hlex
  rw [List.append_nil, ← hlex] at hparse
  rw [CodeTree.Lua.readExpression, String.toList_ofList, hparse]

theorem DenotesAll.wf (h : DenotesAll g arguments xs) : wfExps xs := by
  induction h with
  | nil => trivial
  | cons hx _ ih => exact ⟨hx.wf, ih⟩

theorem DenotesAll.listed (h : DenotesAll g arguments xs) {isFirst : Bool}
    (hw : Yields (emitArguments g isFirst arguments) n () w) :
    Listed isFirst w (tokensExps id isFirst xs) := by
  induction h generalizing isFirst w with
  | nil =>
    rw [yields_emitArguments_nil.1 hw]
    exact Listed.nil isFirst
  | @cons argument x arguments xs hx _ ih =>
    obtain ⟨name, value, passing⟩ := argument
    obtain ⟨-, v, vs, hv, hvs, rfl⟩ := yields_emitArguments_cons.1 hw
    exact (hx.spells n v hv).listed (ih hvs)

/-- Indices behind an access. -/
theorem DenotesAll.indexed (h : DenotesAll g arguments xs)
    (hw : Yields (emitPropertyIndices g arguments) n () w) (hv : Spells false v (y.tokens id)) :
    Spells false (v ++ w) ((indexed y xs).tokens id) := by
  induction h generalizing y v w with
  | nil =>
    rw [yields_emitPropertyIndices_nil.1 hw, List.append_nil]
    exact hv
  | @cons argument key indices keys hkey _ ih =>
    obtain ⟨name, value, passing⟩ := argument
    obtain ⟨-, k, u, hk, hu, rfl⟩ := yields_emitPropertyIndices_cons.1 hw
    obtain ⟨c, cs, hcs, hbracket, hequals⟩ := hkey.opens n k hk
    have hspells := hkey.spells n k hk
    rw [hcs] at hspells
    have hopened := (hspells.bracketed hbracket hequals).fixed fixed_closeBracket rfl
    have hindex := (hv.fixed hopened rfl).toSpells false
    have hrest := ih (y := .index y key) hu (hindex.congr rfl (by simp [Exp.tokens]))
    refine hrest.congr ?_ rfl
    simp [hcs]

end Denotes

/-! ## Accesses with a site -/

/-- An access with a site: to a field, a call, or to a property with indices. -/
structure Access where
  site : Expr
  selection : Selection
  arguments : Option (List Argument)
  optional : Bool
  indices : List Argument

end Lua

/-- The access with a site that an expression is. -/
def Expr.access? : Expr → Option Lua.Access
  | .field (some site) selection => some ⟨site, selection, none, false, []⟩
  | .call (some site) selection arguments optional =>
    some ⟨site, selection, some arguments, optional, []⟩
  | .property (some site) selection indices => some ⟨site, selection, none, false, indices⟩
  | _ => none

namespace Lua

variable {g : Setting} {e : Expr} {a : Access} {member : String} {x : Exp String}
  {xs : Option (List (Exp String))} {keys : List (Exp String)} {n : Nat} {w : List Char}

theorem exists_member (haccess : e.access? = some a) (hw : Yields (emitExpr g e) n () w) :
    ∃ member, g.names.resolve a.selection.name = some member := by
  unfold Expr.access? at haccess
  split at haccess
  · cases haccess
    obtain ⟨member, _, hmember, -⟩ := yields_emitExpr_field_some.1 hw
    exact ⟨member, hmember⟩
  · cases haccess
    obtain ⟨member, _, _, hmember, -⟩ := yields_emitExpr_call_some.1 hw
    exact ⟨member, hmember⟩
  · cases haccess
    obtain ⟨_, _, hv, -⟩ := yields_emitExpr_property.1 hw
    obtain ⟨member, _, hmember, -⟩ := yields_emitExpr_field_some.1 hv
    exact ⟨member, hmember⟩
  · cases haccess

/-- The text of a nil-safe access: a guard, and behind it the indices. -/
theorem exists_guardText (haccess : e.access? = some a) (hsafe : a.selection.nilSafe = true)
    (hmember : g.names.resolve a.selection.name = some member)
    (harguments : Option.Rel (DenotesAll g) a.arguments xs) (hw : Yields (emitExpr g e) n () w) :
    ∃ u call i, Yields (emitExpr g a.site) n () u ∧ Calls id call xs ∧
      Yields (emitPropertyIndices g a.indices) n () i ∧
      w = accessText true (guardText true a.optional member)
        (accessOperator xs.isSome (isTypeReference a.site)) member u call ++ i := by
  unfold Expr.access? at haccess
  split at haccess
  · rename_i site selection
    cases haccess
    cases harguments
    have hguarded : selection.nilSafe = true := hsafe
    obtain ⟨name, u, hname, hu, rfl⟩ := yields_emitExpr_field_some.1 hw
    obtain rfl : member = name := Option.some.inj (hmember.symm.trans hname)
    exact ⟨u, [], [], hu, rfl, yields_emitPropertyIndices_nil.2 rfl, by simp [hguarded, accessOperator]⟩
  · rename_i site selection arguments optional
    cases haccess
    obtain ⟨hxs⟩ := harguments
    have hguarded : selection.nilSafe = true := hsafe
    obtain ⟨name, v, u, hname, hv, hu, rfl⟩ := yields_emitExpr_call_some.1 hw
    obtain rfl : member = name := Option.some.inj (hmember.symm.trans hname)
    exact ⟨u, _, [], hu, ⟨v, rfl, hxs.listed hv⟩, yields_emitPropertyIndices_nil.2 rfl,
      by simp [hguarded]⟩
  · rename_i site selection indices
    cases haccess
    cases harguments
    have hguarded : selection.nilSafe = true := hsafe
    obtain ⟨v, i, hv, hi, rfl⟩ := yields_emitExpr_property.1 hw
    obtain ⟨name, u, hname, hu, rfl⟩ := yields_emitExpr_field_some.1 hv
    obtain rfl : member = name := Option.some.inj (hmember.symm.trans hname)
    exact ⟨u, [], i, hu, rfl, hi, by simp [hguarded, accessOperator]⟩
  · cases haccess

/-- A nil-safe access denotes its guard with the indices behind it. -/
theorem denotes_nilSafe (haccess : e.access? = some a) (hsafe : a.selection.nilSafe = true)
    (hmember : g.names.resolve a.selection.name = some member) (hname : isName member = true)
    (hsite : Denotes g a.site x) (harguments : Option.Rel (DenotesAll g) a.arguments xs)
    (hindices : DenotesAll g a.indices keys) :
    Denotes g e (indexed (guarded (fun _ name => name) x (isTypeReference a.site) true a.optional
      member xs) keys) := by
  have hends := Exp.endsNumeral_of_isPrefix (isPrefix_indexed (x := guarded (fun _ name => name) x
    (isTypeReference a.site) true a.optional member xs) rfl keys)
  have hwf : ∀ ys ∈ xs, wfExps ys := by
    intro ys hys
    generalize a.arguments = arguments at harguments
    cases harguments with
    | some h =>
      cases hys
      exact h.wf
    | none => exact nomatch hys
  refine ⟨wf_indexed hindices.wf (wf_guarded hsite.wf hwf) rfl, fun n w hw => ?_, fun n w hw => ?_⟩
  · obtain ⟨u, call, i, hu, hcall, hi, rfl⟩ := exists_guardText haccess hsafe hmember harguments hw
    have hguard : Written id _ (guarded (fun _ name => name) x (isTypeReference a.site) true a.optional
        member xs) :=
      written_guarded (fun _ _ => rfl) _ true a.optional (hsite.spells n u hu) rfl hname hcall
    rw [hends]
    exact hindices.indexed hi hguard.spells
  · obtain ⟨u, call, i, -, -, -, rfl⟩ := exists_guardText haccess hsafe hmember harguments hw
    exact ⟨'(', _, rfl, by decide, by decide⟩

/-! ## What accesses do -/

/-- Wherever a nil-safe access is written in an accepted tree, its text is read as an expression that
evaluates the site first and once. If there are no indices, nothing more is evaluated if the site is
nil, and otherwise, unless there is no member to call, what the access does without the guard; in this
there may be one nested call less. Indices are evaluated whatever the site is, and used on what is
there then. -/
theorem eval_nilSafe_access {names : NameTable} {config : Config} {source : Source} {text : String}
    (haccepted : ((Generator.new names config).generate source).1 = .ok text)
    (he : .expression e ∈ source.rendered) (haccess : e.access? = some a)
    (hsafe : a.selection.nilSafe = true)
    (hname : ∀ name ∈ names.resolve a.selection.name, isName name = true)
    (hsite : Denotes ⟨names, config⟩ a.site x)
    (harguments : Option.Rel (DenotesAll ⟨names, config⟩) a.arguments xs)
    (hindices : DenotesAll ⟨names, config⟩ a.indices keys)
    (hfree : ∀ ys ∈ xs, ∀ use ∈ usesExps ys, use.1 ≠ "t") :
    ∃ member y, names.resolve a.selection.name = some member ∧
      (∀ n, ∃ w, Yields (emitExpr ⟨names, config⟩ e) n () w ∧
        readExpression (String.ofList w) = some y) ∧
      ∀ (φ : Type) (m : Type → Type) [Monad m] [LawfulMonad m] (W : World φ m)
        (scope : String → Slot φ),
        (∀ call, W.eval call scope
            (indexed (selected x (isTypeReference a.site) member xs) keys) =
          W.value call scope x >>= W.select call scope (isTypeReference a.site) member xs >>=
            W.subscript call scope keys) ∧
        ∀ depth,
          (a.indices = [] → W.eval (W.apply (depth + 1)) scope y =
            W.value (W.apply (depth + 1)) scope x >>= W.guard (W.apply depth) a.optional member
              (W.select (W.apply depth) scope (isTypeReference a.site) member xs)) ∧
          W.eval (W.apply (depth + 1)) scope y =
            (W.value (W.apply (depth + 1)) scope x >>= W.guard (W.apply depth) a.optional member
              (W.select (W.apply depth) scope (isTypeReference a.site) member xs)) >>=
                W.subscript (W.apply (depth + 1)) scope keys := by
  have hrepresentable : ∀ node ∈ e.rendered, Representable ⟨names, config⟩ node := fun node hnode =>
    allRepresentable_of_generate haccepted node (Source.rendered_subset he hnode)
  have hyields := fun n => (succeeds_emitExpr e n).2 hrepresentable
  obtain ⟨_, hw⟩ := hyields 0
  obtain ⟨member, hmember⟩ := exists_member haccess hw
  have hdenotes := denotes_nilSafe haccess hsafe hmember (hname member hmember) hsite harguments hindices
  refine ⟨member, indexed (guarded (fun _ name => name) x (isTypeReference a.site) true a.optional
    member xs) keys, hmember, fun n => ?_, fun φ m _ _ W scope => ⟨fun call => ?_, fun depth => ⟨?_, ?_⟩⟩⟩
  · obtain ⟨w, hw⟩ := hyields n
    exact ⟨w, hw, hdenotes.readExpression hw⟩
  · rw [World.eval_indexed, World.eval_selected]
  · intro hnone
    rw [hnone] at hindices
    cases hindices
    exact World.eval_guarded hfree depth
  · rw [World.eval_indexed, World.eval_guarded hfree depth]

/-! ## A world in which variables are nil -/

inductive Thing
  | numeral (text : String)
  | string (value : List UInt8)
  | object

inductive Event
  | read (name : String)
  | index

/-- A world in which some global variables are nil and the others are objects, and whatever is not nil
has all members. What is read and indexed is kept in order. Nothing is assigned to. -/
def sparse (absent : List String) : World Thing (ExceptT Unit (StateM (List Event))) where
  numeral text := .foreign (.numeral text)
  string value := .foreign (.string value)
  readGlobal _ name := do
    modify (· ++ [.read name])
    return if name ∈ absent then .nil else .foreign .object
  writeGlobal _ _ _ := throw ()
  newCell _ := throw ()
  readCell _ := throw ()
  writeCell _ _ := throw ()
  newTable _ := throw ()
  index _ v _ := do
    modify (· ++ [.index])
    if v.isNil then throw ()
    return .foreign .object
  writeIndex _ _ _ _ := throw ()
  unary _ _ _ := throw ()
  binary _ _ _ _ := throw ()
  callForeign _ _ _ := return [.foreign .object]
  tooDeep := throw ()

/-- What the evaluation of an expression gives in such a world, and what happens in it. -/
def traceOf (absent : List String) (y : Exp String) :
    Except Unit (List (Datum Thing)) × List Event :=
  ((sparse absent).eval ((sparse absent).apply 2) (fun _ => .global) y).run.run []

/-- A call of the method `items` of `obj` with the argument `i`. -/
def callOfItems : Expr :=
  .call (some (.identifier ⟨0⟩)) ⟨⟨1⟩, true, false⟩ [.positional (.identifier ⟨2⟩)] true

/-- An optional nil-safe call reads the variable and nothing else if it is nil. -/
theorem traceOf_callOfItems :
    ((Generator.new ⟨["obj", "items", "i"]⟩ {}).generate (.expression callOfItems)).1 =
      .ok ("(function(t) if t == nil or t.items == nil then return nil end " ++
        "return t:items(i) end)(obj)") ∧
    ∃ y, (∀ n, ∃ w, Yields (emitExpr ⟨⟨["obj", "items", "i"]⟩, {}⟩ callOfItems) n () w ∧
        readExpression (String.ofList w) = some y) ∧
      traceOf ["obj"] y = (.ok [.nil], [.read "obj"]) ∧
      traceOf [] y = (.ok [.foreign .object], [.read "obj", .index, .index, .read "i"]) := by
  refine (fun haccepted => ⟨haccepted, ?_⟩) (by rfl)
  have hsite : Denotes ⟨⟨["obj", "items", "i"]⟩, {}⟩ (.identifier ⟨0⟩) (.name "obj") :=
    denotes_identifier rfl rfl
  have harguments : Option.Rel (DenotesAll ⟨⟨["obj", "items", "i"]⟩, {}⟩)
      (some [.positional (.identifier ⟨2⟩)]) (some [.name "i"]) :=
    .some (.cons (denotes_identifier rfl rfl) .nil)
  obtain ⟨member, y, hmember, hread, heval⟩ := eval_nilSafe_access haccepted List.mem_cons_self rfl rfl
    (by decide) hsite harguments .nil (by decide)
  obtain rfl : "items" = member := Option.some.inj hmember
  refine ⟨y, hread, ?_, ?_⟩
  · rw [traceOf, ((heval _ _ (sparse ["obj"]) _).2 1).1 rfl]
    rfl
  · rw [traceOf, ((heval _ _ (sparse []) _).2 1).1 rfl]
    rfl

/-- An access to the property `items` of `obj` with the index `i`. -/
def itemOfObject : Expr :=
  .property (some (.identifier ⟨0⟩)) ⟨⟨1⟩, true, false⟩ [.positional (.identifier ⟨2⟩)]

/-- If `obj` is nil, a nil-safe access to an indexed property evaluates the index and indexes nil. -/
theorem not_guarded_index :
    ((Generator.new ⟨["obj", "items", "i"]⟩ {}).generate (.expression itemOfObject)).1 =
      .ok "(function(t) if t == nil then return nil end return t.items end)(obj)[i]" ∧
    traceOf ["obj"] (.name "obj") = (.ok [.nil], [.read "obj"]) ∧
    ∃ y, readExpression
        "(function(t) if t == nil then return nil end return t.items end)(obj)[i]" = some y ∧
      traceOf ["obj"] y = (.error (), [.read "obj", .read "i", .index]) := by
  refine (fun haccepted => ⟨haccepted, rfl, ?_⟩) (by rfl)
  have hsite : Denotes ⟨⟨["obj", "items", "i"]⟩, {}⟩ (.identifier ⟨0⟩) (.name "obj") :=
    denotes_identifier rfl rfl
  have hindices : DenotesAll ⟨⟨["obj", "items", "i"]⟩, {}⟩ [.positional (.identifier ⟨2⟩)]
      [.name "i"] := .cons (denotes_identifier rfl rfl) .nil
  have hdenotes := denotes_nilSafe (e := itemOfObject) rfl rfl rfl rfl hsite .none hindices
  have hread := hdenotes.readExpression (generateExpression_eq_ok.1 haccepted)
  rw [String.ofList_toList] at hread
  exact ⟨_, hread, rfl⟩

end Lua

end CodeTree
