import CodeTree.Proofs.Meaning.Access

/-! # Objects whose properties are set

An object with initializers is created in a function that is called at once: the object is kept in a
local, each property is set to the value of its initializer, in the order of the list, and the object is
returned. An array allocation is an empty table, and nothing of its bounds and initializers is written.

* `World.setAll`: properties of a value that are set one after another.
* `World.eval_initialized`: an object is created first and once, and then its properties are set.
* `Fills`: what an initializer sets, and to what.
* `creation_sets_properties`: what the texts of creations and allocations evaluate. -/

namespace CodeTree

namespace Lua

set_option autoImplicit false

/-- The statements that set properties of the local `o`. -/
def assignments (settings : List (String × Exp String)) : List (Stat String) :=
  settings.flatMap fun s => initializer (fun _ name => name) s.1 s.2

theorem assignments_cons (property : String) (y : Exp String) (settings : List (String × Exp String)) :
    assignments ((property, y) :: settings) =
      .empty :: .assign (.field (.name "o") property) y :: assignments settings := rfl

namespace World

open Datum

variable {φ : Type} {m : Type → Type} [Monad m] [LawfulMonad m] {W : World φ m} {call : Caller φ m}
  {scope : String → Slot φ} {creation : Exp String} {settings : List (String × Exp String)}

/-- Sets properties of a value one after another, each to the value of an expression. -/
def setAll (W : World φ m) (call : Caller φ m) (scope : String → Slot φ) (object : Datum φ) :
    List (String × Exp String) → m Unit
  | [] => pure ()
  | (property, y) :: settings => do
    let v ← W.value call scope y
    W.writeIndex call object (W.string (bytesOf property.toList)) v
    setAll W call scope object settings

omit [LawfulMonad m] in
theorem setAll_congr {scope' : String → Slot φ} (object : Datum φ)
    (h : ∀ s ∈ settings, Alike s.2.uses scope scope') :
    W.setAll call scope object settings = W.setAll call scope' object settings := by
  induction settings with
  | nil => rfl
  | cons s settings ih =>
    obtain ⟨property, y⟩ := s
    rw [List.forall_mem_cons] at h
    simp only [setAll, value, eval_congr y h.1, ih h.2]

/-- With an object in the local `o`, the statements set its properties. -/
theorem evalStats_assignments {object : Datum φ} (h : scope "o" = .value object)
    (rest : List (Stat String)) :
    W.evalStats call scope (assignments settings ++ rest) =
      W.setAll call scope object settings >>= fun _ => W.evalStats call scope rest := by
  induction settings with
  | nil => simp [assignments, setAll]
  | cons s settings ih =>
    obtain ⟨property, y⟩ := s
    have ho : W.eval call scope (.name "o") = pure [object] := by simp [eval, h, readSlot]
    rw [assignments_cons]
    simp only [List.cons_append, evalStats, evalStat, pure_bind, bind_assoc, ho, setAll, value,
      map_eq_pure_bind, first, List.headD_cons, ih]

/-- The statements behind the creation of an object: they set its properties and return it. -/
def settingBody (settings : List (String × Exp String)) : List (Stat String) :=
  assignments settings ++ [.empty, .result [.name "o"]]

def creationBody (creation : Exp String) (settings : List (String × Exp String)) : List (Stat String) :=
  .declare "o" none [creation] :: settingBody settings

theorem initialized_eq : initialized (fun _ name => name) creation (assignments settings) =
    .call (.paren (.function [] (creationBody creation settings))) [] := rfl

theorem evalStats_settingBody {object : Datum φ} (h : scope "o" = .value object) :
    W.evalStats call scope (settingBody settings) = do
      W.setAll call scope object settings
      return some [object] := by
  rw [settingBody, evalStats_assignments h]
  simp [evalStats, evalStat, evalList, eval, spread, h, readSlot]

theorem mem_usesStats_settingBody {use : String × Bool} :
    use ∈ usesStats (settingBody settings) ↔
      use = ("o", false) ∨ ∃ s ∈ settings, use ∈ s.2.uses := by
  induction settings with
  | nil => simp [settingBody, assignments, usesStats, Stat.uses, Exp.uses, usesExps, Stat.declared?]
  | cons s settings ih =>
    obtain ⟨property, y⟩ := s
    have hcons : settingBody ((property, y) :: settings) =
        .empty :: .assign (.field (.name "o") property) y :: settingBody settings := rfl
    simp only [hcons, usesStats, Stat.uses, Exp.assigned, Exp.uses, Stat.declared?, List.mem_append,
      List.mem_filter, ih, List.exists_mem_cons_iff]
    simp
    tauto

theorem mem_uses_creationBody {use : String × Bool} :
    use ∈ (Exp.function [] (creationBody creation settings)).uses ↔
      use ∈ creation.uses ∨ use ∈ usesStats (settingBody settings) ∧ "o" ≠ use.1 := by
  simp [creationBody, Exp.uses, usesStats, Stat.uses, usesExps, Stat.declared?]

omit [Monad m] [LawfulMonad m] in
theorem captured_of_mem {uses : List (String × Bool)} {use : String × Bool} (h : use ∈ uses) :
    captured scope uses use.1 = scope use.1 :=
  if_pos (List.mem_map_of_mem h)

/-- A call of the function of a creation, in the scope that it keeps. -/
theorem apply_creationBody (hfree : ∀ s ∈ settings, ∀ use ∈ s.2.uses, use.1 ≠ "o") (depth : Nat) :
    W.apply (depth + 1) (closure [] (creationBody creation settings)
        (captured scope (Exp.function [] (creationBody creation settings)).uses)) [] = do
      let object ← W.value (W.apply depth) scope creation
      W.setAll (W.apply depth) scope object settings
      return [object] := by
  have hassigns : assigns (settingBody settings) "o" = false := by
    rw [assigns, List.contains_eq_mem, decide_eq_false_iff_not, mem_usesStats_settingBody]
    rintro (h | ⟨s, hs, huse⟩)
    · cases h
    · exact hfree s hs _ huse rfl
  have hcreation : Alike creation.uses
      (captured scope (Exp.function [] (creationBody creation settings)).uses) scope :=
    fun use huse => captured_of_mem (mem_uses_creationBody.2 (Or.inl huse))
  have hsettings : ∀ object : Datum φ, ∀ s ∈ settings, Alike s.2.uses
      (rebind (captured scope (Exp.function [] (creationBody creation settings)).uses) "o"
        (.value object)) scope := by
    intro object s hs use huse
    have hname : use.1 ≠ "o" := hfree s hs use huse
    have hused : use ∈ usesStats (settingBody settings) :=
      mem_usesStats_settingBody.2 (Or.inr ⟨s, hs, huse⟩)
    rw [rebind, if_neg hname, captured_of_mem (mem_uses_creationBody.2 (Or.inr ⟨hused, hname.symm⟩))]
  rw [creationBody] at hcreation hsettings ⊢
  simp only [apply, bindAll, evalStats, evalStat, evalList, eval_congr creation hcreation, newSlot,
    hassigns, Bool.false_eq_true, if_false, spread, List.isEmpty_nil, if_true, List.append_nil,
    pure_bind, bind_assoc, value, map_eq_pure_bind]
  refine bind_congr fun vs => ?_
  have hobject : rebind (captured scope
      (Exp.function [] (.declare "o" none [creation] :: settingBody settings)).uses) "o"
      (.value (first vs)) "o" = .value (first vs) := if_pos rfl
  rw [evalStats_settingBody hobject, setAll_congr _ (hsettings _)]
  simp

/-- An object is created first and once, then its properties are set in order, and then it is the value
of the whole. All this is nested one call deeper. -/
theorem eval_initialized (hfree : ∀ s ∈ settings, ∀ use ∈ s.2.uses, use.1 ≠ "o") (depth : Nat) :
    W.eval (W.apply (depth + 1)) scope
        (initialized (fun _ name => name) creation (assignments settings)) = do
      let object ← W.value (W.apply depth) scope creation
      W.setAll (W.apply depth) scope object settings
      return [object] := by
  rw [← apply_creationBody hfree]
  simp [initialized_eq, eval, evalList, first]

end World

/-! ## The texts of creations -/

section Texts

variable {g : Setting} {n : Nat} {w : List Char} {type : TypeReference} {constructor : Option Symbol}
  {arguments initializers : List Argument} {typeName name : String} {xs : List (Exp String)}
  {settings : List (String × Exp String)}

/-- An initializer sets a property, which must have a name. -/
def Sets (g : Setting) (i : Argument) (property : String) : Prop :=
  ∃ s, i.name = some s ∧ g.names.resolve s = some property

/-- An initializer sets a property to the value of an expression of Lua. -/
structure Fills (g : Setting) (i : Argument) (setting : String × Exp String) : Prop where
  sets : Sets g i setting.1
  name : isName setting.1 = true
  denotes : Denotes g i.value setting.2

/-- The text of an object: its creation, and behind it the texts of its properties and their values. -/
def creationText (creation : List Char) (settings : List (String × List Char)) : List Char :=
  if settings.isEmpty then creation
  else "(function() local o = ".toList ++ creation
    ++ settings.flatMap (fun s => "; o.".toList ++ s.1.toList ++ " = ".toList ++ s.2)
    ++ "; return o end)()".toList

/-- Every initializer of an accepted list is written, in the order of the list. -/
theorem exists_settingTexts (hw : Yields (emitInitializers g initializers) n () w) :
    ∃ settings : List (String × List Char),
      List.Forall₂ (fun i s => Sets g i s.1 ∧ Yields (emitExpr g i.value) n () s.2) initializers
        settings ∧
      w = settings.flatMap fun s => "; o.".toList ++ s.1.toList ++ " = ".toList ++ s.2 := by
  induction initializers generalizing w with
  | nil => exact ⟨[], .nil, yields_emitInitializers_nil.1 hw⟩
  | cons i is ih =>
    obtain ⟨label, value, passing⟩ := i
    obtain ⟨s, property, v, u, rfl, hs, hv, hu, rfl⟩ := yields_emitInitializers_cons.1 hw
    obtain ⟨settings, hsettings, rfl⟩ := ih hu
    exact ⟨(property, v) :: settings, .cons ⟨⟨s, rfl, hs⟩, hv⟩ hsettings, rfl⟩

theorem exists_creationText
    (hw : Yields (emitExpr g (.construct type constructor arguments initializers)) n () w) :
    ∃ v settings, Yields (emitExpr g (.construct type constructor arguments [])) n () v ∧
      List.Forall₂ (fun i s => Sets g i s.1 ∧ Yields (emitExpr g i.value) n () s.2) initializers
        settings ∧
      w = creationText v settings := by
  cases initializers with
  | nil => exact ⟨w, [], hw, .nil, rfl⟩
  | cons i is =>
    obtain ⟨v, u, hv, hu, rfl⟩ := yields_emitExpr_construct_with.1 hw
    obtain ⟨settings, hsettings, rfl⟩ := exists_settingTexts hu
    cases hsettings with
    | cons hi his => exact ⟨v, _, hv, .cons hi his, rfl⟩

theorem assigns_assignments (h : List.Forall₂ (Fills g) initializers settings) :
    Assigns (fun _ name => name) (assignments settings) := by
  induction h with
  | nil => exact .nil
  | cons hi _ ih => exact .cons hi.denotes.wf ih

theorem trails_assignments (h : List.Forall₂ (Fills g) initializers settings)
    (hw : Yields (emitInitializers g initializers) n () w) :
    Trails w (tokensStats id (assignments settings)) := by
  induction h generalizing w with
  | nil =>
    rw [yields_emitInitializers_nil.1 hw]
    exact Trails.nil
  | @cons i s is settings hi _ ih =>
    obtain ⟨label, value, passing⟩ := i
    obtain ⟨symbol, hsymbol, hresolve⟩ := hi.sets
    obtain ⟨symbol', property, v, u, hsymbol', hresolve', hv, hu, rfl⟩ :=
      yields_emitInitializers_cons.1 hw
    obtain rfl : symbol = symbol' := Option.some.inj (hsymbol.symm.trans hsymbol')
    obtain rfl : s.1 = property := Option.some.inj (hresolve.symm.trans hresolve')
    exact (hi.denotes.spells n v hv).initializer (fun _ _ => rfl) hi.name (ih hu)

/-- The call of a constructor. -/
def creationCall (type constructor : String) (xs : List (Exp String)) : Exp String :=
  .call (.field (.name type) constructor) xs

/-- The creation of an object denotes the call of the constructor, in a function if properties are set. -/
theorem denotes_construct (htype : g.names.resolve type.name = some typeName)
    (hname : constructorName g constructor = some name) (htypeName : isName typeName = true)
    (hconstructor : isName name = true) (harguments : DenotesAll g arguments xs)
    (hsettings : List.Forall₂ (Fills g) initializers settings) :
    Denotes g (.construct type constructor arguments initializers)
      (constructExp (fun _ name => name) typeName name xs (assignments settings)) := by
  have hcreation : ∀ n v, Yields (emitExpr g (.construct type constructor arguments [])) n () v →
      Written id v (creationCall typeName name xs) := by
    intro n v hv
    obtain ⟨typeName', name', u, htype', hname', hu, rfl⟩ := yields_emitExpr_construct.1 hv
    obtain rfl : typeName = typeName' := Option.some.inj (htype.symm.trans htype')
    obtain rfl : name = name' := Option.some.inj (hname.symm.trans hname')
    have htype : Written id typeName.toList (.name typeName) := written_name htypeName
    have harguments : Listed true u (tokensExps id true xs) := harguments.listed hu
    have hcall : Written id _ (creationCall typeName name xs) :=
      (htype.field rfl hconstructor).call harguments
    simpa [constructorText] using hcall
  refine denotes_of_written (solid_constructExp harguments.wf (assigns_assignments hsettings)).wf
    fun n w hw => ?_
  cases hsettings with
  | nil => exact hcreation n w hw
  | cons hi his =>
    obtain ⟨v, u, hv, hu, rfl⟩ := yields_emitExpr_construct_with.1 hw
    have htrails := trails_assignments (.cons hi his) hu
    exact (hcreation n v hv).initialized (fun _ _ => rfl) htrails

end Texts

/-! ## What creations do -/

/-- Wherever an object is created in an accepted tree, each initializer has a name, and the text is the
creation followed by one setting for each initializer, in the order of the list. Where the names are
those of Lua and the parts denote expressions, the text is read as an expression that creates the object
first and once, then sets the properties in order to the values, and then is the object; if there is
nothing to set, it is the creation alone. An array allocation is written as an empty table whatever its
bounds and initializers are. -/
theorem creation_sets_properties {generator : Generator} {source : Source} {text : String}
    (haccepted : (generator.generate source).1 = .ok text) :
    (∀ type constructor arguments initializers,
      .expression (.construct type constructor arguments initializers) ∈ source.rendered →
      (∀ n, ∃ v texts,
        Yields (emitExpr generator.setting (.construct type constructor arguments [])) n () v ∧
        List.Forall₂ (fun i s => Sets generator.setting i s.1 ∧
          Yields (emitExpr generator.setting i.value) n () s.2) initializers texts ∧
        Yields (emitExpr generator.setting (.construct type constructor arguments initializers)) n ()
          (creationText v texts)) ∧
      ∃ typeName name, generator.setting.names.resolve type.name = some typeName ∧
        constructorName generator.setting constructor = some name ∧
        ∀ xs settings, isName typeName = true → isName name = true →
          DenotesAll generator.setting arguments xs →
          List.Forall₂ (Fills generator.setting) initializers settings →
          ∃ y, (∀ n, ∃ w, Yields (emitExpr generator.setting
              (.construct type constructor arguments initializers)) n () w ∧
              readExpression (String.ofList w) = some y) ∧
            (initializers = [] → y = creationCall typeName name xs) ∧
            (initializers ≠ [] → (∀ s ∈ settings, ∀ use ∈ s.2.uses, use.1 ≠ "o") →
              ∀ (φ : Type) (m : Type → Type) [Monad m] [LawfulMonad m] (W : World φ m)
                (scope : String → Slot φ) (depth : Nat),
                W.eval (W.apply (depth + 1)) scope y = do
                  let object ← W.value (W.apply depth) scope (creationCall typeName name xs)
                  W.setAll (W.apply depth) scope object settings
                  return [object])) ∧
    ∀ type constructor bounds initializers,
      .expression (.allocate type constructor bounds initializers) ∈ source.rendered → ∀ n,
        Yields (emitExpr generator.setting (.allocate type constructor bounds initializers)) n ()
          ['{', '}'] := by
  have hyields : ∀ e, .expression e ∈ source.rendered → ∀ n, ∃ w,
      Yields (emitExpr generator.setting e) n () w := fun e he n =>
    (succeeds_emitExpr e n).2 fun node hnode =>
      allRepresentable_of_generate haccepted node (Source.rendered_subset he hnode)
  refine ⟨fun type constructor arguments initializers he => ⟨fun n => ?_, ?_⟩,
    fun type constructor bounds initializers he n => ?_⟩
  · obtain ⟨w, hw⟩ := hyields _ he n
    obtain ⟨v, texts, hv, htexts, rfl⟩ := exists_creationText hw
    exact ⟨v, texts, hv, htexts, hw⟩
  · obtain ⟨w, hw⟩ := hyields _ he 0
    obtain ⟨v, texts, hv, -, rfl⟩ := exists_creationText hw
    obtain ⟨typeName, name, u, htype, hname, -, rfl⟩ := yields_emitExpr_construct.1 hv
    refine ⟨typeName, name, htype, hname, fun xs settings htypeName hconstructor harguments hsettings =>
      ⟨constructExp (fun _ name => name) typeName name xs (assignments settings), fun n => ?_, ?_, ?_⟩⟩
    · obtain ⟨w, hw⟩ := hyields _ he n
      have hdenotes := denotes_construct htype hname htypeName hconstructor harguments hsettings
      exact ⟨w, hw, hdenotes.readExpression hw⟩
    · rintro rfl
      cases hsettings
      rfl
    · intro hsome hfree φ m _ _ W scope depth
      cases hsettings with
      | nil => exact absurd rfl hsome
      | cons => exact World.eval_initialized hfree depth
  · obtain ⟨w, hw⟩ := hyields _ he n
    obtain ⟨-, rfl⟩ := yields_emitExpr_allocate.1 hw
    exact hw

/-! ## A world in which objects are created -/

/-- What is seen of the creation of objects: variables that are read, calls, and properties that are set. -/
inductive Deed
  | read (name : String)
  | called (arguments : List (Datum Thing))
  | created
  | set (property value : Datum Thing)

/-- A world in which everything that is read, called or created is an object. What is done is kept in
order. -/
def workshop : World Thing (StateM (List Deed)) where
  numeral text := .foreign (.numeral text)
  string value := .foreign (.string value)
  readGlobal _ name := do
    modify (· ++ [.read name])
    return .foreign .object
  writeGlobal _ _ _ := pure ()
  newCell _ := pure 0
  readCell _ := pure .nil
  writeCell _ _ := pure ()
  newTable _ := do
    modify (· ++ [.created])
    return .foreign .object
  index _ _ _ := pure (.foreign .object)
  writeIndex _ _ property value := modify (· ++ [.set property value])
  unary _ _ _ := pure .nil
  binary _ _ _ _ := pure .nil
  callForeign _ _ arguments := do
    modify (· ++ [.called arguments])
    return [.foreign .object]
  tooDeep := pure []

/-- What the evaluation of an expression gives in this world, and what is done. -/
def deedsOf (y : Exp String) : List (Datum Thing) × List Deed :=
  (workshop.eval (workshop.apply 2) (fun _ => .global) y).run []

/-- An object with two properties. -/
def point : Expr :=
  .construct (.named ⟨0⟩) none [.positional (.identifier ⟨3⟩)]
    [⟨some ⟨1⟩, .identifier ⟨4⟩, .byValue⟩, ⟨some ⟨2⟩, .identifier ⟨3⟩, .byValue⟩]

/-- The constructor is called before the properties are set, and these are set in order. -/
theorem deedsOf_point :
    ((Generator.new ⟨["Point", "x", "y", "a", "b"]⟩ {}).generate (.expression point)).1 =
      .ok "(function() local o = Point.new(a); o.x = b; o.y = a; return o end)()" ∧
    ∃ y, (∀ n, ∃ w, Yields (emitExpr ⟨⟨["Point", "x", "y", "a", "b"]⟩, {}⟩ point) n () w ∧
        readExpression (String.ofList w) = some y) ∧
      deedsOf y = ([.foreign .object], [.read "Point", .read "a", .called [.foreign .object],
        .read "b", .set (.foreign (.string [120])) (.foreign .object),
        .read "a", .set (.foreign (.string [121])) (.foreign .object)]) := by
  refine (fun haccepted => ⟨haccepted, ?_⟩) (by rfl)
  have ha : Denotes ⟨⟨["Point", "x", "y", "a", "b"]⟩, {}⟩ (.identifier ⟨3⟩) (.name "a") :=
    denotes_identifier rfl rfl
  have hb : Denotes ⟨⟨["Point", "x", "y", "a", "b"]⟩, {}⟩ (.identifier ⟨4⟩) (.name "b") :=
    denotes_identifier rfl rfl
  obtain ⟨-, typeName, name, htype, hname, hcreation⟩ :=
    (creation_sets_properties haccepted).1 _ _ _ _ List.mem_cons_self
  obtain rfl : "Point" = typeName := Option.some.inj htype
  obtain rfl : "new" = name := Option.some.inj hname
  obtain ⟨y, hread, -, heval⟩ := hcreation [.name "a"] [("x", .name "b"), ("y", .name "a")] rfl rfl
    (.cons ha .nil) (.cons ⟨⟨_, rfl, rfl⟩, rfl, hb⟩ (.cons ⟨⟨_, rfl, rfl⟩, rfl, ha⟩ .nil))
  refine ⟨y, hread, ?_⟩
  rw [deedsOf, heval (by simp) (by decide) _ _ workshop _ 1]
  rfl

/-- An array with a property. -/
def labelledArray : Expr :=
  .allocate (.named ⟨0⟩) none [.literal (.integer 1)] [⟨some ⟨1⟩, .literal (.integer 1), .byValue⟩]

/-- An array allocation with a property is accepted, and in its text the property is not set. -/
theorem not_set_by_allocation :
    ((Generator.new ⟨["T", "x"]⟩ {}).generate (.expression labelledArray)).1 = .ok "\x7b\x7d" ∧
    ∃ y, readExpression "\x7b\x7d" = some y ∧ deedsOf y = ([.foreign .object], [.created]) ∧
      ∀ property value, Deed.set property value ∉ (deedsOf y).2 := by
  have hlex : lex "\x7b\x7d".toList = [.mark .leftBrace, .mark .rightBrace] := by decide
  have hdeeds : deedsOf (.table []) = ([.foreign .object], [.created]) := rfl
  refine ⟨rfl, .table [], ?_, hdeeds, fun property value h => ?_⟩
  · rw [readExpression, hlex, List.parseExp, List.parseOperand]
    simp [UnaryOp.ofToken?, List.parseSimple, List.parseFields, List.parseTail]
  · rw [hdeeds] at h
    simp at h

end Lua

end CodeTree
