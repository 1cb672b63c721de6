import CodeTree.Proofs.Emission.Library
import CodeTree.Proofs.Emission.Passage

/-! # Writing behind what is there

Wherever a generator stands, what it writes next comes behind what is there. Which text that is, or which
refusal, depends on the tree, the settings and the depth alone. The depth is the same afterwards, and the
`bit` library is marked if it was marked before or the tree needs it.

An operand keeps a blank from a minus sign and a line a semicolon from the line before, if its own text
calls for that. Such a mark may as well be put in when the text stands on the draft already, at the place
where it begins: what was there before is not looked at.

* `Generator.resume`: a generator goes on with its draft.
* `resume_eq`: what it comes to, by what is written at its depth.
* `markAfterwards`: a text with a mark that is put in later.
* `writing_appends_and_restores`: expressions and statements. -/

namespace CodeTree.Lua

set_option autoImplicit false
set_option synthInstance.maxSize 1000

variable {action : Emit Unit} {n : Nat}

/-! ## Going on with a draft -/

/-- Goes on with the draft as it stands. Of a run that is refused only the refusal is left. -/
def Generator.resume (g : Generator) (action : Emit Unit) : Except EmitError Generator :=
  match g.run action Draft.text with
  | (.ok _, g') => .ok g'
  | (.error error, _) => .error error

/-- What an action writes at the depth of the draft comes behind what is there. -/
theorem resume_eq [Tidy action] (setting : Setting) (d : Draft) :
    (Generator.mk setting d).resume action =
      (written action d.depth).map fun p => ⟨setting, d.add p.text p.usesLibrary⟩ := by
  rw [Generator.resume, Generator.run, EStateM.run]
  cases hwritten : written action d.depth with
  | ok p =>
    rw [written_eq_ok_iff.1 hwritten d rfl]
    rfl
  | error error =>
    obtain ⟨d', hd'⟩ := written_eq_error_iff.1 hwritten d rfl
    rw [hd']
    rfl

theorem resume_congr {action' : Emit Unit} [Tidy action] [Tidy action']
    (h : ∀ n, written action n = written action' n) (g : Generator) :
    g.resume action = g.resume action' := by
  obtain ⟨setting, d⟩ := g
  rw [resume_eq, resume_eq, h]

theorem exists_outcome_of_marks [Tidy action] {needed : Bool} (hmarks : Marks action needed)
    (setting : Setting) :
    ∃ outcome : Nat → Except EmitError String, ∀ d : Draft,
      (Generator.mk setting d).resume action = (outcome d.depth).map fun text =>
        ⟨setting, d.text ++ text, d.depth, d.usesBitLibrary || needed⟩ := by
  refine ⟨fun n => (written action n).map fun p => String.ofList p.text, fun d => ?_⟩
  rw [resume_eq]
  dsimp only
  cases hwritten : written action d.depth with
  | error error => rfl
  | ok p =>
    have hneeded : p.usesLibrary = needed := hmarks _ _ _ _ (written_eq_ok_iff.1 hwritten)
    rw [← hneeded]
    rfl

/-! ## Marks that are put in afterwards -/

/-- Puts a text behind the first `place` characters of the draft. -/
def insertAt (place : Nat) (text : List Char) : Emit Unit :=
  modify fun d => { d with
    text := String.ofList (d.text.toList.take place ++ text ++ d.text.toList.drop place) }

/-- Writes, and then puts in a mark that the new text calls for, at the place where it begins. -/
def markAfterwards (mark : List Char → List Char) (action : Emit Unit) : Emit Unit := do
  let place := (← get).text.toList.length
  action
  let added := (← get).text.toList.drop place
  insertAt place (mark added)

theorem markAfterwards_apply (mark : List Char → List Char) (action : Emit Unit) (d : Draft) :
    markAfterwards mark action d =
      match action d with
      | .ok _ d' =>
        insertAt d.text.toList.length (mark (d'.text.toList.drop d.text.toList.length)) d'
      | .error error d' => .error error d' := by
  show EStateM.run (markAfterwards mark action) d = match EStateM.run action d with
    | .ok _ d' =>
      EStateM.run (insertAt d.text.toList.length (mark (d'.text.toList.drop d.text.toList.length))) d'
    | .error error d' => .error error d'
  simp only [markAfterwards, EStateM.run_bind, EStateM.run_get]
  cases EStateM.run action d <;> rfl

/-- The place that was remembered is the end of what was there before. -/
theorem insertAt_add (d : Draft) (w v : List Char) (bit : Bool) :
    insertAt d.text.toList.length v (d.add w bit) = .ok () (d.add (v ++ w) bit) := by
  show EStateM.Result.ok () _ = _
  simp [Draft.add]

section Marked

variable {mark : List Char → List Char}

theorem Adds.markAfterwards {w : List Char} {bit : Bool} (h : Adds action n () w bit)
    (mark : List Char → List Char) : Adds (markAfterwards mark action) n () (mark w ++ w) bit := by
  intro d hd
  have hadded : (d.add w bit).text.toList.drop d.text.toList.length = w := by simp [Draft.add]
  rw [markAfterwards_apply, h d hd]
  simp only [hadded, insertAt_add]

theorem Stops.markAfterwards {error : EmitError} (h : Stops action n error)
    (mark : List Char → List Char) : Stops (markAfterwards mark action) n error := by
  intro d hd
  obtain ⟨d', hrun⟩ := h d hd
  exact ⟨d', by rw [markAfterwards_apply, hrun]⟩

instance tidy_markAfterwards [h : Tidy action] : Tidy (markAfterwards mark action) := by
  refine ⟨fun n => ?_⟩
  rcases h.adds_or_stops n with ⟨_, w, bit, ha⟩ | ⟨error, hs⟩
  · exact .inl ⟨(), _, bit, ha.markAfterwards mark⟩
  · exact .inr ⟨error, hs.markAfterwards mark⟩

/-- A text may be captured and written behind its mark, or marked when it is there. -/
theorem written_capture_bind [h : Tidy action] {marked : String → String}
    (hmarked : ∀ v, (marked (String.ofList v)).toList = mark v ++ v) (next : Unit → Emit Unit)
    [∀ u, Tidy (next u)] :
    written (capture action >>= fun text => write (marked text) >>= next) n =
      written (markAfterwards mark action >>= next) n := by
  have hfirst : written (capture action >>= fun text => write (marked text)) n =
      written (markAfterwards mark action) n := by
    rcases h.adds_or_stops n with ⟨_, w, bit, ha⟩ | ⟨error, hs⟩
    · rw [(ha.capture.bind (adds_write (marked (String.ofList w)) n)).written,
        (ha.markAfterwards mark).written, hmarked, List.nil_append, Bool.or_false]
    · rw [hs.capture.bind.written, (hs.markAfterwards mark).written]
  rw [← bind_assoc, written_bind, written_bind, hfirst]

theorem written_emitPrefixed [Tidy action] (operator : String) :
    written (emitPrefixed operator action) n =
      written (emitBetween ("(" ++ operator) ")" (markAfterwards (gap operator) action)) n := by
  rw [emitPrefixed, emitBetween, written_bind, written_bind,
    written_capture_bind fun v => by simpa using toList_apart operator v]

theorem written_emitExpressionLine [Tidy action] (g : Setting) :
    written (emitExpressionLine g action) n =
      written (emitLine g (markAfterwards semicolon action)) n := by
  rw [emitExpressionLine, emitLine, written_bind, written_bind,
    written_capture_bind fun v => by simpa using toList_separated v]

end Marked

/-! ## Trees -/

/-- Writing an expression or a statement only adds to what a generator has written and restores the rest.
For each depth there is one text or one refusal that it comes to, whatever stands on the draft: the text
comes behind that, the settings and the depth are as before, and the `bit` library is marked if it was or
one of the nodes that are written needs it. The blank behind a minus sign and the semicolon in front of a
line depend on the operand and on the line alone: they come out the same if they are put in afterwards, at
the place where the operand or the line was begun. -/
theorem writing_appends_and_restores (setting : Setting) :
    (∀ e : Expr, ∃ outcome : Nat → Except EmitError String, ∀ d : Draft,
      (Generator.mk setting d).resume (emitExpr setting e) = (outcome d.depth).map fun text =>
        ⟨setting, d.text ++ text, d.depth,
          d.usesBitLibrary || usesLibrary setting.config.target e.rendered⟩) ∧
    (∀ s : Statement, ∃ outcome : Nat → Except EmitError String, ∀ d : Draft,
      (Generator.mk setting d).resume (emitStatement setting s) = (outcome d.depth).map fun text =>
        ⟨setting, d.text ++ text, d.depth,
          d.usesBitLibrary || usesLibrary setting.config.target s.rendered⟩) ∧
    (∀ operator e d, (Generator.mk setting d).resume (emitPrefixed operator (emitExpr setting e)) =
      (Generator.mk setting d).resume
        (emitBetween ("(" ++ operator) ")" (markAfterwards (gap operator) (emitExpr setting e)))) ∧
    ∀ e d, (Generator.mk setting d).resume (emitExpressionLine setting (emitExpr setting e)) =
      (Generator.mk setting d).resume
        (emitLine setting (markAfterwards semicolon (emitExpr setting e))) := by
  refine ⟨fun e => ?_, fun s => ?_, fun operator e d => ?_, fun e d => ?_⟩
  · exact exists_outcome_of_marks (marks_emitExpr e) setting
  · exact exists_outcome_of_marks (marks_emitStatement s) setting
  · exact resume_congr (fun n => written_emitPrefixed operator) _
  · exact resume_congr (fun n => written_emitExpressionLine setting) _

/-- The draft ends with a minus sign and the operand begins with one. Only between the operand and its own
sign there is a blank. -/
example :
    let negated : Expr := .unary (.standard .minus) (.literal (.integer (-1)))
    (Generator.mk ⟨⟨[]⟩, {}⟩ ⟨"return -", 1, true⟩).resume (emitExpr ⟨⟨[]⟩, {}⟩ negated) =
      .ok ⟨⟨⟨[]⟩, {}⟩, "return -(- -1)", 1, true⟩ := by
  rfl

end CodeTree.Lua
