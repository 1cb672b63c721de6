import CodeTree.Proofs.Emission.Text

/-! # What is written at a depth

At each depth an action writes one passage or is refused, on every draft. Of two actions in a row the
second passage stands behind the first, and a refusal of the first one goes first. So lists of statements
are written statement by statement, at the top as well as in blocks and methods, and nothing that was
written before makes a difference.

* `Passage`, `written`: what an action writes at a depth; `Generator.body`: what statements are
  written as, without the line that loads the `bit` library.
* `written_bind`: one action after another.
* `written_emitStatement_block`, `written_emitExpr_method`: statements inside of a block or a method.
* `statements_compose`: two lists in a row. -/

namespace CodeTree.Lua

set_option autoImplicit false
set_option synthInstance.maxSize 1000

/-! ## Passages -/

/-- A piece of text, and whether it uses the `bit` library. -/
structure Passage where
  text : List Char
  usesLibrary : Bool

namespace Passage

instance : Append Passage := ⟨fun p q => ⟨p.text ++ q.text, p.usesLibrary || q.usesLibrary⟩⟩

theorem append_eq (p q : Passage) :
    p ++ q = ⟨p.text ++ q.text, p.usesLibrary || q.usesLibrary⟩ := rfl

theorem append_assoc (p q r : Passage) : p ++ q ++ r = p ++ (q ++ r) := by
  simp only [append_eq, List.append_assoc, Bool.or_assoc]

/-- A text that does not use the library. -/
def plain (text : List Char) : Passage := ⟨text, false⟩

/-- A line at depth `n`. -/
def line (width n : Nat) (text : String) : Passage :=
  plain (List.replicate (n * width) ' ' ++ text.toList ++ ['\n'])

/-- The text behind the line that loads the library, if it uses the library. -/
def answer (p : Passage) : String :=
  (if p.usesLibrary then bitPrelude else "") ++ String.ofList p.text

end Passage

/-- The passage that an action writes at depth `n`, or its refusal. -/
def written (action : Emit Unit) (n : Nat) : Except EmitError Passage :=
  match action ⟨"", n, false⟩ with
  | .ok _ d => .ok ⟨d.text.toList, d.usesBitLibrary⟩
  | .error error _ => .error error

/-- What statements are written as, without the line that loads the library. -/
def Generator.body (generator : Generator) (statements : List Statement) : Except EmitError Passage :=
  written (emitStatements generator.setting statements) 0

section Written

variable {action : Emit Unit} {n : Nat}

theorem Adds.written {w : List Char} {bit : Bool} (h : Adds action n () w bit) :
    written action n = .ok ⟨w, bit⟩ := by
  rw [Lua.written, h ⟨"", n, false⟩ rfl]
  simp [Draft.add]

theorem Stops.written {error : EmitError} (h : Stops action n error) :
    written action n = .error error := by
  obtain ⟨d, hd⟩ := h ⟨"", n, false⟩ rfl
  rw [Lua.written, hd]

/-- What a tidy action writes on an empty draft it writes on every draft. -/
theorem written_eq_ok_iff [ht : Tidy action] {p : Passage} :
    written action n = .ok p ↔ Adds action n () p.text p.usesLibrary := by
  refine ⟨fun h => ?_, Adds.written⟩
  rcases ht.adds_or_stops n with ⟨_, w, bit, hadds⟩ | ⟨error, hstops⟩
  · rw [hadds.written] at h
    cases h
    exact hadds
  · rw [hstops.written] at h
    cases h

theorem written_eq_error_iff [ht : Tidy action] {error : EmitError} :
    written action n = .error error ↔ Stops action n error := by
  refine ⟨fun h => ?_, Stops.written⟩
  rcases ht.adds_or_stops n with ⟨_, w, bit, hadds⟩ | ⟨error, hstops⟩
  · rw [hadds.written] at h
    cases h
  · rw [hstops.written] at h
    cases h
    exact hstops

/-- Nothing on the draft makes a difference but its depth. -/
theorem run_eq_of_written [Tidy action] (d : Draft) :
    match written action d.depth with
    | .ok p => action d = .ok () (d.add p.text p.usesLibrary)
    | .error error => ∃ d', action d = .error error d' := by
  cases h : written action d.depth with
  | ok p => exact written_eq_ok_iff.1 h d rfl
  | error error => exact written_eq_error_iff.1 h d rfl

/-! ## One action after another -/

theorem written_bind {next : Unit → Emit Unit} [h₁ : Tidy action] [h₂ : ∀ u, Tidy (next u)] :
    written (action >>= next) n = (do
      let first ← written action n
      let second ← written (next ()) n
      return first ++ second) := by
  rcases h₁.adds_or_stops n with ⟨_, w₁, b₁, hadds₁⟩ | ⟨error, hstops⟩
  · rcases (h₂ ()).adds_or_stops n with ⟨_, w₂, b₂, hadds₂⟩ | ⟨error, hstops⟩
    · rw [(hadds₁.bind hadds₂).written, hadds₁.written, hadds₂.written]
      rfl
    · rw [(hadds₁.bind_stops hstops).written, hadds₁.written, hstops.written]
      rfl
  · rw [hstops.bind.written, hstops.written]
    rfl

theorem written_pure : written (pure ()) n = .ok (.plain []) := (adds_pure () n).written

theorem written_deeper [h : Tidy action] : written (deeper action) n = written action (n + 1) := by
  rcases h.adds_or_stops (n + 1) with ⟨_, w, bit, hadds⟩ | ⟨error, hstops⟩
  · rw [hadds.deeper.written, hadds.written]
  · rw [hstops.deeper.written, hstops.written]

theorem written_emitLine_write {g : Setting} (text : String) :
    written (emitLine g (write text)) n = .ok (.line g.config.indentWidth n text) := by
  have hrest : Adds (write text >>= fun _ => newline) n () _ _ :=
    (adds_write text n).bind (adds_write "\n" n)
  have hline : Adds (emitLine g (write text)) n () _ _ := (adds_indent _ n).bind hrest
  rw [hline.written, ← List.append_assoc]
  rfl

end Written

/-! ## Statements -/

section Statements

variable {g : Setting} {n : Nat}

theorem written_emitStatements_append (xs ys : List Statement) :
    written (emitStatements g (xs ++ ys)) n = (do
      let first ← written (emitStatements g xs) n
      let second ← written (emitStatements g ys) n
      return first ++ second) := by
  induction xs with
  | nil =>
    rw [List.nil_append, emitStatements, written_pure]
    cases written (emitStatements g ys) n <;> rfl
  | cons s xs ih =>
    rw [List.cons_append, emitStatements, emitStatements, written_bind, written_bind, ih]
    simp only [bind_assoc, pure_bind, Passage.append_assoc]

/-- A block is its statements, one step further in, between two lines. -/
theorem written_emitStatement_block (body : List Statement) :
    written (emitStatement g (.block body)) n = (do
      let inner ← written (emitStatements g body) (n + 1)
      return .line g.config.indentWidth n "do" ++ inner ++ .line g.config.indentWidth n "end") := by
  rw [emitStatement, written_bind, written_bind, written_emitLine_write, written_emitLine_write,
    written_deeper]
  cases written (emitStatements g body) (n + 1) with
  | error error => rfl
  | ok inner => exact congrArg Except.ok (Passage.append_assoc _ _ _).symm

/-- Writes what stands before the statements of a method. -/
def emitMethodHead (g : Setting) (parameters : List Parameter) (locals : Option (List Declaration)) :
    Emit Unit := do
  write "function("
  emitParameterNames g true parameters
  write ")"
  newline
  deeper do
    emitDefaultValues g parameters
    emitLocals? g locals

/-- A method is its statements, one step further in, between what comes before them and its end. -/
theorem written_emitExpr_method (lambda : Bool) (parameters : List Parameter)
    (returns : Option TypeReference) (body : List Statement) (locals : Option (List Declaration)) :
    written (emitExpr g (.method lambda parameters returns body locals)) n = (do
      let head ← written (emitMethodHead g parameters locals) n
      let inner ← written (emitStatements g body) (n + 1)
      return head ++ inner ++
        .plain (List.replicate (n * g.config.indentWidth) ' ' ++ "end".toList)) := by
  have hend : written (do
      indent g.config.indentWidth
      write "end") n = .ok (.plain (List.replicate (n * g.config.indentWidth) ' ' ++ "end".toList)) :=
    ((adds_indent _ n).bind (adds_write "end" n)).written
  rw [emitExpr, emitMethodHead]
  simp only [written_bind, written_deeper, hend, bind_assoc, pure_bind, Passage.append_assoc]
  rfl

end Statements

/-! ## The generator -/

theorem Generator.generateStatements_eq_body (generator : Generator) (statements : List Statement) :
    (generator.generateStatements statements).1 = (generator.body statements).map Passage.answer := by
  rw [generateStatements, body]
  rcases (tidy_emitStatements generator.setting statements).adds_or_stops 0 with
    ⟨_, w, bit, hadds⟩ | ⟨error, hstops⟩
  · rw [run_of_adds hadds, hadds.written]
    cases bit <;> simp [Except.map, Passage.answer]
  · rw [run_of_stops hstops, hstops.written]
    rfl

/-- The body of two lists of statements in a row is the body of the first followed by the body of the
second. It uses the `bit` library if one of them does, and is refused if one of them is, with the refusal
of the first if there are two. The same holds at every depth, among others for the statements inside of a
block and of a method, and whatever was written before. -/
theorem statements_compose (generator : Generator) (xs ys : List Statement) :
    (∀ statements, (generator.generateStatements statements).1 =
      (generator.body statements).map Passage.answer) ∧
    (generator.body (xs ++ ys) = do
      let first ← generator.body xs
      let second ← generator.body ys
      return first ++ second) ∧
    (∀ n, written (emitStatement generator.setting (.block (xs ++ ys))) n = do
      let first ← written (emitStatements generator.setting xs) (n + 1)
      let second ← written (emitStatements generator.setting ys) (n + 1)
      return .line generator.setting.config.indentWidth n "do" ++ (first ++ second) ++
        .line generator.setting.config.indentWidth n "end") ∧
    (∀ n lambda parameters returns locals,
      written (emitExpr generator.setting (.method lambda parameters returns (xs ++ ys) locals)) n = do
        let head ← written (emitMethodHead generator.setting parameters locals) n
        let first ← written (emitStatements generator.setting xs) (n + 1)
        let second ← written (emitStatements generator.setting ys) (n + 1)
        return head ++ (first ++ second) ++ .plain
          (List.replicate (n * generator.setting.config.indentWidth) ' ' ++ "end".toList)) ∧
    ∀ (d : Draft) (statements : List Statement),
      match written (emitStatements generator.setting statements) d.depth with
      | .ok p =>
        emitStatements generator.setting statements d = .ok () (d.add p.text p.usesLibrary)
      | .error error => ∃ d', emitStatements generator.setting statements d = .error error d' := by
  refine ⟨generator.generateStatements_eq_body, written_emitStatements_append xs ys, fun n => ?_,
    fun n lambda parameters returns locals => ?_, fun d statements => run_eq_of_written d⟩
  · simp only [written_emitStatement_block, written_emitStatements_append, bind_assoc, pure_bind]
  · simp only [written_emitExpr_method, written_emitStatements_append, bind_assoc, pure_bind]

end CodeTree.Lua
