import CodeTree.Proofs.Acceptance.Strictness

/-! # How arguments are passed

Lua passes by value only. The arguments of calls and constructors and the indices of properties are
checked for that wherever they stand in a tree. The values of new properties are arguments of the same
kind, but how they are passed is not looked at.

* `Representable.byValue`: the arguments of a node that can be represented.
* `emitExpr_construct_repassed`: an object creation is written the same however its properties are passed.
* `arguments_byValue_of_isOk`: both of this for what a generator accepts. -/

namespace CodeTree.Lua

set_option autoImplicit false

variable {g : Setting}

theorem Representable.byValue {node : Node} (h : Representable g node) :
    ∀ a ∈ node.arguments, a.passing = .byValue := by
  intro a ha
  match node, h with
  | .expression (.call _ _ _ _), h => exact (h.2 a ha).1
  | .expression (.property _ _ _), h => exact (h.2 a ha).1
  | .expression (.construct _ _ _ _), h => exact (h.2.2.1 a ha).1

/-- The same arguments, passed in other ways. -/
def repassed (passing : Argument → Passing) (arguments : List Argument) : List Argument :=
  arguments.map fun a => { a with passing := passing a }

theorem emitInitializers_repassed (passing : Argument → Passing) (initializers : List Argument) :
    emitInitializers g (repassed passing initializers) = emitInitializers g initializers := by
  induction initializers with
  | nil => rfl
  | cons i is ih =>
    obtain ⟨name, value, way⟩ := i
    cases name with
    | none => rfl
    | some name =>
      rw [repassed] at ih ⊢
      rw [List.map_cons, emitInitializers, emitInitializers, ih]

/-- Wherever the creation of an object stands, it is written the same however its properties are passed. -/
theorem emitExpr_construct_repassed (passing : Argument → Passing) (type : TypeReference)
    (constructor : Option Symbol) (arguments initializers : List Argument) :
    emitExpr g (.construct type constructor arguments (repassed passing initializers)) =
      emitExpr g (.construct type constructor arguments initializers) := by
  cases initializers with
  | nil => rfl
  | cons i is =>
    have hinitializers := emitInitializers_repassed (g := g) passing (i :: is)
    rw [repassed, List.map_cons] at hinitializers ⊢
    simp only [emitExpr, hinitializers]

/-- In what is accepted, all arguments of calls and constructors and all indices of properties are passed
by value, wherever in the tree they are written. How the values of new properties are passed makes no
difference. -/
theorem arguments_byValue_of_isOk (generator : Generator) :
    (∀ source : Source, (generator.generate source).1.isOk = true →
      ∀ node ∈ source.rendered, ∀ a ∈ node.arguments, a.passing = .byValue) ∧
    ∀ (passing : Argument → Passing) (type : TypeReference) (constructor : Option Symbol)
      (arguments initializers : List Argument),
      emitExpr generator.setting
          (.construct type constructor arguments (repassed passing initializers)) =
        emitExpr generator.setting (.construct type constructor arguments initializers) := by
  refine ⟨fun source haccepted node hnode => ?_, emitExpr_construct_repassed⟩
  exact (isOk_generate_iff.1 haccepted node hnode).byValue

/-- The argument of a call in the value of a property, which is passed by reference itself. -/
theorem argument_byValue_in_initializer :
    let call : Expr := .call none (.named ⟨2⟩) [.positional (.identifier ⟨1⟩)] false
    let source : Source := .expression (.construct (.named ⟨0⟩) none [] [⟨some ⟨1⟩, call, .byRef⟩])
    ((Generator.new ⟨["T", "x", "f"]⟩ {}).generate source).1 =
        .ok "(function() local o = T.new(); o.x = f(x); return o end)()" ∧
      .expression call ∈ source.rendered ∧
      (Argument.positional (.identifier ⟨1⟩)).passing = .byValue := by
  intro call source
  have haccepted : ((Generator.new ⟨["T", "x", "f"]⟩ {}).generate source).1 =
      .ok "(function() local o = T.new(); o.x = f(x); return o end)()" := rfl
  have hcall : .expression call ∈ source.rendered := by
    simp [source, call, Source.rendered, Expr.rendered, renderedArguments]
  have hpassing := (arguments_byValue_of_isOk (Generator.new ⟨["T", "x", "f"]⟩ {})).1 source
    (by rw [haccepted]; rfl) _ hcall
  exact ⟨haccepted, hcall, hpassing _ List.mem_cons_self⟩

/-- An object with a property that is passed by reference is accepted, and so what is accepted may pass
properties in other ways than by value. The same argument of the constructor is refused. -/
theorem not_byValue_initializer :
    ((Generator.new ⟨["T", "x"]⟩ {}).generate (.expression (.construct (.named ⟨0⟩) none []
      [⟨some ⟨1⟩, .literal (.integer 1), .byRef⟩]))).1 =
        .ok "(function() local o = T.new(); o.x = 1; return o end)()" ∧
    ((Generator.new ⟨["T", "x"]⟩ {}).generate (.expression (.construct (.named ⟨0⟩) none
      [⟨some ⟨1⟩, .literal (.integer 1), .byRef⟩] []))).1 = .error (.argumentPassing .byRef) ∧
    ¬ ∀ (generator : Generator) (source : Source), (generator.generate source).1.isOk = true →
      ∀ type constructor arguments initializers,
        .expression (.construct type constructor arguments initializers) ∈ source.rendered →
          ∀ i ∈ initializers, i.passing = .byValue := by
  refine ⟨rfl, rfl, fun hall => ?_⟩
  have hpassing := hall (Generator.new ⟨["T", "x"]⟩ {}) (.expression (.construct (.named ⟨0⟩) none []
    [⟨some ⟨1⟩, .literal (.integer 1), .byRef⟩])) rfl _ _ _ _ List.mem_cons_self _ List.mem_cons_self
  exact absurd hpassing (by decide)

end CodeTree.Lua
