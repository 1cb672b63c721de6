import CodeTree.Proofs.Acceptance.Permissions
import CodeTree.Proofs.Acceptance.Representable

/-! # What becomes of raw code

Raw code is reported where it is not permitted, and a portable tree has none. So a portable tree is
answered the same whether raw code is permitted or not. The converse holds except below array
allocations, whose parts are left out of the text without a look at them.

* `answer_of_portable`: portable trees under both permissions.
* `raw_below_allocation_of_isOk`: accepted trees where raw code is not permitted. -/

namespace CodeTree

set_option autoImplicit false

/-! ## Portable trees -/

theorem Expr.not_raw_of_portable {e : Expr} (h : e.ensurePortable = .ok ()) :
    ∀ node ∈ e.rendered, node.isRaw = false :=
  fun node hnode => ensurePortable_eq_ok_iff.1 h node (Node.rendered_subset_nodes (.expression e) hnode)

theorem not_raw_of_portableStatements {statements : List Statement}
    (h : ensurePortableStatements statements = .ok ()) :
    ∀ node ∈ renderedStatements statements, node.isRaw = false := by
  intro node hnode
  rw [renderedStatements_eq, List.flatMap_map] at hnode
  obtain ⟨s, hs, hnode⟩ := List.mem_flatMap.1 hnode
  exact ensurePortableStatements_eq_ok_iff.1 h s hs node (Node.rendered_subset_nodes _ hnode)

namespace Lua

section Portable

variable {g : Setting} {nodes : List Node} (h : ∀ node ∈ nodes, node.isRaw = false)
include h

theorem permittedAlike_of_not_raw (allow : Bool) :
    PermittedAlike g allow g.config.namedArguments nodes := by
  intro node hnode
  refine ⟨fun hraw => ?_, fun _ _ _ => rfl⟩
  rw [h node hnode] at hraw
  cases hraw

/-- Only raw nodes give reason to say that a tree is not portable. -/
theorem not_exists_fault_notPortable (lines : Nat) :
    ¬ ∃ node ∈ nodes, node.Fault g (.notPortable lines) := by
  rintro ⟨node, hnode, hfault⟩
  have hraw := h node hnode
  cases hfault with
  | notPortable hcode hrefused =>
    rw [node.isRaw_eq, hcode] at hraw
    cases hraw

end Portable

/-- Portable trees have one answer, whether raw code is permitted or not and whatever was written before,
and it is never that they are not portable. -/
theorem answer_of_portable (names : NameTable) (config : Config) (allow allow' : Bool) (d d' : Draft) :
    (∀ e : Expr, e.ensurePortable = .ok () →
      ((Generator.mk ⟨names, { config with allowRaw := allow }⟩ d).generateExpression e).1 =
          ((Generator.mk ⟨names, { config with allowRaw := allow' }⟩ d').generateExpression e).1 ∧
        ∀ lines,
          ((Generator.mk ⟨names, { config with allowRaw := allow }⟩ d).generateExpression e).1 ≠
            .error (.tree (.notPortable lines))) ∧
    ∀ statements : List Statement, ensurePortableStatements statements = .ok () →
      ((Generator.mk ⟨names, { config with allowRaw := allow }⟩ d).generateStatements statements).1 =
          ((Generator.mk ⟨names, { config with allowRaw := allow' }⟩ d').generateStatements
            statements).1 ∧
        ∀ lines,
          ((Generator.mk ⟨names, { config with allowRaw := allow }⟩ d).generateStatements
            statements).1 ≠ .error (.tree (.notPortable lines)) := by
  let g : Setting := ⟨names, { config with allowRaw := allow }⟩
  refine ⟨fun e he => ?_, fun statements hstatements => ?_⟩
  · have hraw := e.not_raw_of_portable he
    have hemit : emitExpr (g.permitting allow' g.config.namedArguments) e = emitExpr g e :=
      emitExpr_permitting e (permittedAlike_of_not_raw hraw allow')
    refine ⟨?_, fun lines hanswer => ?_⟩
    · show ((Generator.mk g d).clear.run (emitExpr g e) _).1 = _
      rw [← hemit]
      exact answer_eq_answer _ _ _ _
    · exact not_exists_fault_notPortable hraw lines (exists_fault_of_generateExpression hanswer)
  · have hraw := not_raw_of_portableStatements hstatements
    have hemit : emitStatements (g.permitting allow' g.config.namedArguments) statements =
        emitStatements g statements :=
      emitStatements_permitting statements (permittedAlike_of_not_raw hraw allow')
    refine ⟨?_, fun lines hanswer => ?_⟩
    · show ((Generator.mk g d).clear.run (emitStatements g statements) _).1 = _
      rw [← hemit]
      exact answer_eq_answer _ _ _ _
    · exact not_exists_fault_notPortable hraw lines (exists_fault_of_generateStatements hanswer)

/-- The method `function(x) f(x) end` with the default value `nil` for `x`, and the assignment of it to an
unknown name. -/
theorem answer_of_portable_method :
    let method : Expr := .method true [⟨⟨0⟩, none, .byValue, some .nil⟩] none
      [.expression (.call none (.named ⟨1⟩) [.named (.identifier ⟨0⟩) ⟨0⟩] false)] none
    let answer (allow : Bool) (e : Expr) :=
      ((Generator.mk ⟨⟨["x", "f"]⟩, { allowRaw := allow }⟩ Draft.empty).generateExpression e).1
    let answers (allow : Bool) (statements : List Statement) :=
      ((Generator.mk ⟨⟨["x", "f"]⟩, { allowRaw := allow }⟩ Draft.empty).generateStatements statements).1
    (method.ensurePortable = .ok () ∧ answer false method = answer true method ∧
      ∀ lines, answer false method ≠ .error (.tree (.notPortable lines))) ∧
    ensurePortableStatements [.assignment (.identifier ⟨2⟩) method] = .ok () ∧
      answers true [.assignment (.identifier ⟨2⟩) method] =
        answers false [.assignment (.identifier ⟨2⟩) method] ∧
      ∀ lines, answers true [.assignment (.identifier ⟨2⟩) method] ≠
        .error (.tree (.notPortable lines)) :=
  ⟨⟨rfl, (answer_of_portable _ {} false true _ _).1 _ rfl⟩,
    rfl, (answer_of_portable _ {} true false _ _).2 _ rfl⟩

/-! ## Accepted trees -/

end Lua

/-- Whether a node is an array allocation. -/
def Node.isAllocation : Node → Bool
  | expression (.allocate _ _ _ _) => true
  | _ => false

theorem Node.isWritten_of_isRaw {node : Node} (h : node.isRaw = true) : node.isWritten = true := by
  cases node with
  | expression | statement => rfl
  | member | raw => cases h

namespace Lua

section Accepted

variable {g : Setting} {node : Node}

/-- A node that is accepted although nothing below it is looked at is an array allocation. -/
theorem Representable.isClosed_eq (h : Representable g node) : node.isClosed = node.isAllocation := by
  cases node with
  | expression e =>
    cases e with
    | anonymousType => cases h
    | _ => rfl
  | statement => rfl
  | member | raw => cases h

theorem Representable.isRaw_eq (h : Representable g node) (hrefused : g.config.allowRaw = false) :
    node.isRaw = false := by
  cases node with
  | expression e =>
    cases hraw : e.raw? with
    | none => simp [Node.isRaw, Expr.isRaw, hraw]
    | some code =>
      obtain rfl := Expr.eq_of_raw?_eq_some hraw
      have hallowed : g.config.allowRaw = true := h
      rw [hrefused] at hallowed
      cases hallowed
  | statement => rfl
  | member | raw => cases h

/-- In an accepted tree there is no raw code outside of array allocations. -/
theorem not_raw_of_mem_listing (hrefused : g.config.allowRaw = false) (node : Node)
    (hnode : ∀ m, node ≠ .member m) (h : ∀ other ∈ node.rendered, Representable g other) :
    ∀ other ∈ node.listing Node.isAllocation, other.isRaw = false := by
  intro other hother
  rw [Node.listing_eq, List.mem_cons] at hother
  rcases hother with rfl | hbelow
  · by_contra hraw
    have hseen := h _ (Node.seen_mem_rendered (Node.isWritten_of_isRaw (by simpa using hraw)))
    exact hraw (hseen.isRaw_eq hrefused)
  · split at hbelow
    · cases hbelow
    · rename_i hallocation
      obtain ⟨child, hchild, hother⟩ := List.mem_flatMap.1 hbelow
      have hopen : node.seen.isClosed = false := by
        by_cases hwritten : node.seen.isWritten = true
        · rw [(h _ (Node.seen_mem_rendered hwritten)).isClosed_eq]
          simpa using hallocation
        · cases node with
          | expression | statement => exact absurd rfl hwritten
          | member m => exact absurd rfl (hnode m)
          | raw code => cases hchild
      exact not_raw_of_mem_listing hrefused child (Node.ne_member_of_mem_children hopen hchild)
        (fun other hother => h other (Node.rendered_subset_of_mem_children hopen hchild hother))
        other hother
termination_by sizeOf node
decreasing_by exact Node.sizeOf_lt_of_mem_children ‹_›

/-- All raw code of an accepted tree stands below array allocations. -/
theorem exists_allocation_above (hrefused : g.config.allowRaw = false) (hnode : ∀ m, node ≠ .member m)
    (h : ∀ other ∈ node.rendered, Representable g other) :
    ∀ o ∈ node.occurrences [], o.node.isRaw = true → ∃ a ∈ o.above, a.isAllocation = true := by
  intro o ho hraw
  by_contra hnone
  have hreached : o.isReached Node.isAllocation = true := by
    rw [Occurrence.isReached, List.all_eq_true]
    intro a ha
    simpa using fun hallocation => hnone ⟨a, ha, hallocation⟩
  have hmem : o.node ∈ node.listing Node.isAllocation := by
    have hlisting : _ = node.listing Node.isAllocation :=
      node.listing_eq_occurrences Node.isAllocation []
    rw [← hlisting]
    exact List.mem_map_of_mem (List.mem_filter.2 ⟨ho, hreached⟩)
  rw [not_raw_of_mem_listing hrefused node hnode h _ hmem] at hraw
  cases hraw

/-- Without raw code below allocations there is none at all. -/
theorem not_raw_of_mem_nodes (hrefused : g.config.allowRaw = false) (hnode : ∀ m, node ≠ .member m)
    (h : ∀ other ∈ node.rendered, Representable g other)
    (hbelow : ∀ o ∈ node.occurrences [],
      (∃ a ∈ o.above, a.isAllocation = true) → o.node.isRaw = false) :
    ∀ other ∈ node.nodes, other.isRaw = false := by
  intro other hother
  rw [node.nodes_eq_occurrences] at hother
  obtain ⟨o, ho, rfl⟩ := List.mem_map.1 hother
  by_contra hraw
  exact hraw (hbelow o ho (exists_allocation_above hrefused hnode h o ho (by simpa using hraw)))

end Accepted

/-- If raw code is not permitted, all raw code of an accepted tree stands below array allocations, and an
accepted tree that has none there is portable. -/
theorem raw_below_allocation_of_isOk (generator : Generator)
    (hrefused : generator.setting.config.allowRaw = false) :
    (∀ e : Expr, (generator.generateExpression e).1.isOk = true →
      (∀ o ∈ (Node.expression e).occurrences [],
        o.node.isRaw = true → ∃ a ∈ o.above, a.isAllocation = true) ∧
      ((∀ o ∈ (Node.expression e).occurrences [],
        (∃ a ∈ o.above, a.isAllocation = true) → o.node.isRaw = false) → e.isPortable = true)) ∧
    ∀ statements : List Statement, (generator.generateStatements statements).1.isOk = true →
      (∀ s ∈ statements, ∀ o ∈ (Node.statement s).occurrences [],
        o.node.isRaw = true → ∃ a ∈ o.above, a.isAllocation = true) ∧
      ((∀ s ∈ statements, ∀ o ∈ (Node.statement s).occurrences [],
        (∃ a ∈ o.above, a.isAllocation = true) → o.node.isRaw = false) →
          ensurePortableStatements statements = .ok ()) := by
  refine ⟨fun e he => ?_, fun statements hstatements => ?_⟩
  · have hrendered := generateExpression_isOk.1 he
    refine ⟨exists_allocation_above hrefused nofun hrendered, fun hbelow => ?_⟩
    have hportable : e.ensurePortable = .ok () :=
      Expr.ensurePortable_eq_ok_iff.2 (not_raw_of_mem_nodes hrefused nofun hrendered hbelow)
    rw [Expr.isPortable, hportable]
    rfl
  · have hrendered : ∀ s ∈ statements, ∀ node ∈ s.rendered, Representable generator.setting node := by
      intro s hs node hnode
      refine generateStatements_isOk.1 hstatements node ?_
      rw [renderedStatements_eq, List.flatMap_map]
      exact List.mem_flatMap.2 ⟨s, hs, hnode⟩
    refine ⟨fun s hs => exists_allocation_above hrefused nofun (hrendered s hs), fun hbelow => ?_⟩
    exact ensurePortableStatements_eq_ok_iff.2 fun s hs =>
      not_raw_of_mem_nodes hrefused nofun (hrendered s hs) (hbelow s hs)

/-- The bounds of an array are left out of the text, so raw code among them is not reported. -/
theorem raw_bound_unreported :
    let array : Expr := .allocate (.named ⟨0⟩) none [.atom (.raw ⟨["n"]⟩)] []
    let generator := Generator.new ⟨["T"]⟩ {}
    generator.setting.config.allowRaw = false ∧
      (generator.generateExpression array).1 = .ok "\x7b\x7d" ∧ array.isPortable = false ∧
      (generator.generateStatements [.result (some array)]).1.isOk = true ∧
      ensurePortableStatements [.result (some array)] = .error (.notPortable 1) :=
  ⟨rfl, rfl, rfl, rfl, rfl⟩

/-- In `x[T[raw]]` all raw code stands below the allocation, and `return x` is portable. -/
theorem raw_below_allocation_of_element :
    let array : Expr := .allocate (.named ⟨0⟩) none [.atom (.raw ⟨["n"]⟩)] []
    let element : Expr := .element (.identifier ⟨1⟩) [array]
    let generator := Generator.new ⟨["T", "x"]⟩ {}
    generator.setting.config.allowRaw = false ∧
      (generator.generateExpression element).1.isOk = true ∧
      (∀ o ∈ (Node.expression element).occurrences [],
        o.node.isRaw = true → ∃ a ∈ o.above, a.isAllocation = true) ∧
      (generator.generateStatements [.result (some (.identifier ⟨1⟩))]).1.isOk = true ∧
      ensurePortableStatements [.result (some (.identifier ⟨1⟩))] = .ok () := by
  have h := raw_below_allocation_of_isOk (Generator.new ⟨["T", "x"]⟩ {}) rfl
  refine ⟨rfl, rfl, (h.1 _ rfl).1, rfl, (h.2 _ rfl).2 fun s hs o ho _ => ?_⟩
  obtain rfl := List.mem_singleton.1 hs
  simp [Node.occurrences_eq, Node.children, Statement.operands, Statement.body, Expr.operands,
    Expr.body, Expr.members, Node.seen, Expr.node, Expr.identifier, Expr.raw?, Expr.atom?,
    Atom.raw?] at ho
  rcases ho with rfl | rfl <;> rfl

end Lua

end CodeTree
