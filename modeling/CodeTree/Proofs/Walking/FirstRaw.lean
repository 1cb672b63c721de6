import CodeTree.Proofs.Walking.Portable

/-! # The raw code that is reported

A check for raw code stops at the first raw node in the order of the traversal and reports its number of
lines, whatever comes later. Over a list of statements it stops at the first statement that is not
portable, so a list is checked like its two halves one after the other.

* `FirstRaw`: the first raw code among some nodes.
* `ensurePortable_eq_error_iff`, `ensurePortableStatements_eq_error_iff`: when something is reported.
* `first_raw_reported`: what is reported of expressions, of statements and of lists. -/

namespace CodeTree

set_option autoImplicit false

/-- The code is that of a node, and no node before this one is raw. -/
def FirstRaw (nodes : List Node) (code : RawCode) : Prop :=
  ∃ before after, nodes = before ++ .expression (.atom (.raw code)) :: after ∧
    ∀ node ∈ before, node.isRaw = false

theorem Node.code?_eq_some_iff {node : Node} {code : RawCode} :
    node.code? = some code ↔ node = .expression (.atom (.raw code)) := by
  constructor
  · intro h
    cases node with
    | expression e => rw [Expr.eq_of_raw?_eq_some h]
    | statement | member | raw => cases h
  · rintro rfl
    rfl

theorem Node.code?_eq_none_iff {node : Node} : node.code? = none ↔ node.isRaw = false := by
  rw [node.isRaw_eq]
  cases node.code? <;> simp

theorem findSome?_code?_eq_some_iff {nodes : List Node} {code : RawCode} :
    nodes.findSome? Node.code? = some code ↔ FirstRaw nodes code := by
  simp only [List.findSome?_eq_some_iff, Node.code?_eq_some_iff, Node.code?_eq_none_iff]
  constructor
  · rintro ⟨before, _, after, hnodes, rfl, hbefore⟩
    exact ⟨before, after, hnodes, hbefore⟩
  · rintro ⟨before, after, hnodes, hbefore⟩
    exact ⟨before, _, after, hnodes, rfl, hbefore⟩

theorem reportRaw_findSome?_eq_error_iff {nodes : List Node} {error : TreeError} :
    reportRaw (nodes.findSome? Node.code?) = .error error ↔
      ∃ code, FirstRaw nodes code ∧ error = .notPortable code.lines.length := by
  simp only [← findSome?_code?_eq_some_iff]
  cases nodes.findSome? Node.code? with
  | none => exact iff_of_false nofun nofun
  | some code => simp [reportRaw, eq_comm]

/-! ## Expressions -/

theorem Expr.ensurePortable_eq_error_iff {e : Expr} {error : TreeError} :
    e.ensurePortable = .error error ↔
      ∃ code, FirstRaw (Node.expression e).nodes code ∧ error = .notPortable code.lines.length := by
  rw [ensurePortable_eq, reportRaw_findSome?_eq_error_iff]

theorem Expr.isPortable_iff {e : Expr} : e.isPortable = true ↔ e.ensurePortable = .ok () := by
  rw [isPortable]
  cases e.ensurePortable with
  | ok done => exact iff_of_true rfl rfl
  | error error => exact iff_of_false nofun nofun

/-! ## Lists of statements -/

theorem ensurePortableStatements_singleton_eq_error_iff {s : Statement} {error : TreeError} :
    ensurePortableStatements [s] = .error error ↔
      ∃ code, FirstRaw (Node.statement s).nodes code ∧ error = .notPortable code.lines.length := by
  rw [ensurePortableStatements_eq, reportRaw_findSome?_eq_error_iff, List.map_singleton,
    List.flatMap_singleton]

/-- The second half of a list is looked at if nothing is reported of the first. -/
theorem ensurePortableStatements_append (xs ys : List Statement) :
    ensurePortableStatements (xs ++ ys) =
      match ensurePortableStatements xs with
      | .ok () => ensurePortableStatements ys
      | .error error => .error error := by
  simp only [ensurePortableStatements_eq, List.map_append, List.flatMap_append,
    List.findSome?_append, reportRaw_or]
  cases reportRaw (((xs.map Node.statement).flatMap Node.nodes).findSome? Node.code?) <;> rfl

theorem ensurePortableStatements_eq_ok_iff_singletons {statements : List Statement} :
    ensurePortableStatements statements = .ok () ↔
      ∀ s ∈ statements, ensurePortableStatements [s] = .ok () := by
  rw [ensurePortableStatements_eq_ok_iff]
  simp only [ensurePortableStatements_eq_ok_iff, List.forall_mem_singleton]

/-- What is reported of a list is what is reported of its first statement that is not portable. -/
theorem ensurePortableStatements_eq_error_iff {statements : List Statement} {error : TreeError} :
    ensurePortableStatements statements = .error error ↔
      ∃ before s after, statements = before ++ s :: after ∧
        (∀ t ∈ before, ensurePortableStatements [t] = .ok ()) ∧
          ensurePortableStatements [s] = .error error := by
  constructor
  · intro h
    induction statements with
    | nil => cases h
    | cons s statements ih =>
      rw [← List.singleton_append, ensurePortableStatements_append] at h
      cases hs : ensurePortableStatements [s] with
      | error first =>
        rw [hs] at h
        exact ⟨[], s, statements, rfl, nofun, hs.trans h⟩
      | ok done =>
        rw [hs] at h
        obtain ⟨before, t, after, rfl, hbefore, ht⟩ := ih h
        exact ⟨s :: before, t, after, rfl, List.forall_mem_cons.2 ⟨hs, hbefore⟩, ht⟩
  · rintro ⟨before, s, after, rfl, hbefore, hs⟩
    rw [← List.singleton_append, ensurePortableStatements_append,
      ensurePortableStatements_eq_ok_iff_singletons.2 hbefore, ensurePortableStatements_append, hs]

/-- A check for raw code succeeds exactly if there is none anywhere in the tree, and reports the number
of lines of the first raw node otherwise. Of a list it reports what it reports of the first statement
that is not portable, and of two lists in a row what it reports of the first or else of the second. -/
theorem first_raw_reported :
    (∀ e : Expr,
      (e.ensurePortable = .ok () ↔ ∀ node ∈ (Node.expression e).nodes, node.isRaw = false) ∧
      (e.isPortable = true ↔ ∀ node ∈ (Node.expression e).nodes, node.isRaw = false) ∧
      ∀ error, e.ensurePortable = .error error ↔
        ∃ code, FirstRaw (Node.expression e).nodes code ∧
          error = .notPortable code.lines.length) ∧
    (∀ (s : Statement) (error : TreeError), ensurePortableStatements [s] = .error error ↔
      ∃ code, FirstRaw (Node.statement s).nodes code ∧ error = .notPortable code.lines.length) ∧
    (∀ statements : List Statement,
      (ensurePortableStatements statements = .ok () ↔
        ∀ s ∈ statements, ensurePortableStatements [s] = .ok ()) ∧
      ∀ error, ensurePortableStatements statements = .error error ↔
        ∃ before s after, statements = before ++ s :: after ∧
          (∀ t ∈ before, ensurePortableStatements [t] = .ok ()) ∧
            ensurePortableStatements [s] = .error error) ∧
    ∀ xs ys : List Statement, ensurePortableStatements (xs ++ ys) =
      match ensurePortableStatements xs with
      | .ok () => ensurePortableStatements ys
      | .error error => .error error := by
  refine ⟨fun e => ⟨Expr.ensurePortable_eq_ok_iff, ?_, fun error => Expr.ensurePortable_eq_error_iff⟩,
    fun s error => ensurePortableStatements_singleton_eq_error_iff,
    fun statements => ⟨ensurePortableStatements_eq_ok_iff_singletons, fun error =>
      ensurePortableStatements_eq_error_iff⟩, ensurePortableStatements_append⟩
  rw [Expr.isPortable_iff, Expr.ensurePortable_eq_ok_iff]

end CodeTree
