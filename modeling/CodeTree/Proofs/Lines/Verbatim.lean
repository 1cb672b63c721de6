import CodeTree.Proofs.Emission.Text
import Mathlib.Data.List.Basic

/-! # Raw code from text and back to text

A text is cut into the lines of raw code at its line feeds, after its carriage returns are dropped. Joined
again the lines are the text without its carriage returns, and lines in which there is neither character
are the lines of the text that they are joined to. Raw code at depth zero is written as its lines with
nothing but line feeds between them, whatever the width of an indentation.

* `withoutReturns`: a text without its carriage returns.
* `splitAtLineFeeds_eq_splitOn`: the lines in the terms of the library.
* `adds_emitLines`: what writing lines adds at any depth.
* `raw_text_survives`: from text to text. -/

namespace CodeTree

set_option autoImplicit false

/-- The text without its carriage returns. -/
def withoutReturns (text : String) : String := String.ofList (text.toList.filter (· ≠ '\r'))

/-- Whether neither a carriage return nor a line feed is in the line. -/
def IsUnbroken (line : String) : Prop := '\r' ∉ line.toList ∧ '\n' ∉ line.toList

instance (line : String) : Decidable (IsUnbroken line) :=
  inferInstanceAs (Decidable ('\r' ∉ line.toList ∧ '\n' ∉ line.toList))

namespace RawCode

/-! ## Cutting at line feeds -/

theorem splitAtLineFeeds_eq_splitOn (text : List Char) :
    splitAtLineFeeds text = text.splitOn '\n' := by
  induction text with
  | nil => rw [splitAtLineFeeds, List.splitOn_nil]
  | cons c cs ih =>
    rw [splitAtLineFeeds, List.splitOn_cons_eq_if_modifyHead, ih]
    by_cases hfeed : c = '\n'
    · simp [hfeed]
    · obtain ⟨line, lines, hlines⟩ := List.exists_cons_of_ne_nil (List.splitOn_ne_nil '\n' cs)
      simp [hfeed, hlines]

theorem length_splitAtLineFeeds (text : List Char) :
    (splitAtLineFeeds text).length = text.count '\n' + 1 := by
  rw [splitAtLineFeeds_eq_splitOn]
  induction text with
  | nil => rw [List.splitOn_nil, List.length_singleton, List.count_nil]
  | cons c cs ih =>
    rw [List.splitOn_cons_eq_if_modifyHead]
    by_cases hfeed : c = '\n'
    · simp [hfeed, ih]
    · simp [hfeed, ih, List.count_cons_of_ne hfeed]

/-- The characters of a line are characters of the text, and none of them is a line feed. -/
theorem mem_of_mem_splitAtLineFeeds {text line : List Char} (hline : line ∈ splitAtLineFeeds text)
    {c : Char} (hc : c ∈ line) : c ∈ text ∧ c ≠ '\n' := by
  induction text generalizing line with
  | nil =>
    obtain rfl : line = [] := List.mem_singleton.1 hline
    cases hc
  | cons d ds ih =>
    have hrest : ∀ {l : List Char}, l ∈ splitAtLineFeeds ds → c ∈ l → c ∈ d :: ds ∧ c ≠ '\n' :=
      fun hl hcl => ⟨List.mem_cons_of_mem d (ih hl hcl).1, (ih hl hcl).2⟩
    rw [splitAtLineFeeds] at hline
    split at hline
    · rcases List.mem_cons.1 hline with rfl | hl
      · cases hc
      · exact hrest hl hc
    · rename_i hfeed
      obtain ⟨first, lines, hlines⟩ :=
        List.exists_cons_of_ne_nil (splitAtLineFeeds_eq_splitOn ds ▸ List.splitOn_ne_nil '\n' ds)
      rw [hlines] at hline hrest
      -- Only the first line has a character more than the lines of the rest.
      rcases List.mem_cons.1 hline with rfl | hl
      · rcases List.mem_cons.1 hc with rfl | hc
        · exact ⟨List.mem_cons_self, hfeed⟩
        · exact hrest List.mem_cons_self hc
      · exact hrest (List.mem_cons_of_mem first hl) hc

/-! ## From text to lines -/

theorem lines_ofText (text : String) :
    (ofText text).lines = ((withoutReturns text).toList.splitOn '\n').map String.ofList := by
  rw [ofText, splitAtLineFeeds_eq_splitOn, withoutReturns, String.toList_ofList]

theorem length_lines_ofText (text : String) :
    (ofText text).lines.length = text.toList.count '\n' + 1 := by
  rw [ofText, List.length_map, length_splitAtLineFeeds, List.count_filter (by decide)]

theorem isUnbroken_of_mem_ofText {text line : String} (h : line ∈ (ofText text).lines) :
    IsUnbroken line := by
  obtain ⟨chars, hchars, rfl⟩ := List.mem_map.1 h
  rw [IsUnbroken, String.toList_ofList]
  refine ⟨fun hreturn => ?_, fun hfeed => (mem_of_mem_splitAtLineFeeds hchars hfeed).2 rfl⟩
  have hmem := (mem_of_mem_splitAtLineFeeds hchars hreturn).1
  simp at hmem

/-- The lines joined by line feeds are the text without its carriage returns. -/
theorem intercalate_lines_ofText (text : String) :
    "\n".intercalate (ofText text).lines = withoutReturns text := by
  rw [← String.toList_inj, String.toList_intercalate, lines_ofText, List.map_map]
  simp [Function.comp_def, List.intercalate_splitOn]

/-! ## From lines to text -/

theorem filter_intercalate (p : Char → Bool) (separator : List Char) : ∀ lines : List (List Char),
    (separator.intercalate lines).filter p
      = (separator.filter p).intercalate (lines.map (List.filter p))
  | [] => by simp
  | [line] => by simp
  | line :: line' :: lines => by
    have ih := filter_intercalate p separator (line' :: lines)
    simp only [List.map_cons] at ih
    simp only [List.intercalate_cons_cons, List.filter_append, List.map_cons, ih]

/-- Lines that are joined by line feeds, with carriage returns before them or not, are the lines of the
text. -/
theorem ofText_intercalate {separator : String} {lines : List String} (hne : lines ≠ [])
    (hlines : ∀ line ∈ lines, IsUnbroken line)
    (hseparator : separator.toList.filter (· ≠ '\r') = ['\n']) :
    ofText (separator.intercalate lines) = ⟨lines⟩ := by
  have hkeep : (lines.map String.toList).map (List.filter (· ≠ '\r')) = lines.map String.toList := by
    rw [List.map_map]
    refine List.map_congr_left fun line hline => List.filter_eq_self.2 fun c hc => ?_
    exact decide_eq_true fun hreturn => (hlines line hline).1 (hreturn ▸ hc)
  have hsplit : List.splitOn '\n' (['\n'].intercalate (lines.map String.toList))
      = lines.map String.toList := by
    refine List.splitOn_intercalate '\n' (fun chars hchars => ?_) (by simpa using hne)
    obtain ⟨line, hline, rfl⟩ := List.mem_map.1 hchars
    exact (hlines line hline).2
  rw [ofText, splitAtLineFeeds_eq_splitOn, String.toList_intercalate, filter_intercalate,
    hseparator, hkeep, hsplit]
  simp [Function.comp_def]

end RawCode

namespace Lua

/-! ## Writing lines -/

/-- Between two lines stand a line feed and the indentation of the depth. -/
theorem adds_emitLines (g : Setting) (n : Nat) : ∀ lines : List String,
    Adds (emitLines g lines) n ()
      (('\n' :: List.replicate (n * g.config.indentWidth) ' ').intercalate (lines.map String.toList))
      false
  | [] => adds_pure () n
  | [line] => by
    simpa only [List.map_cons, List.map_nil, List.intercalate_singleton, emitLines] using
      adds_write line n
  | line :: line' :: lines => by
    have hrest := adds_emitLines g n (line' :: lines)
    have hwrite : Adds (emitLines g (line :: line' :: lines)) n () (line.toList ++ ("\n".toList ++
        (List.replicate (n * g.config.indentWidth) ' ' ++ List.intercalate _ _))) false :=
      (adds_write line n).bind ((adds_write "\n" n).bind
        ((adds_indent g.config.indentWidth n).bind hrest))
    simpa [List.intercalate_cons_cons] using hwrite

/-- The text of raw code, where it is allowed, is its lines with line feeds between them. -/
theorem generateExpression_raw {generator : Generator} (hraw : generator.setting.config.allowRaw = true)
    (code : RawCode) :
    (generator.generateExpression (.atom (.raw code))).1 = .ok ("\n".intercalate code.lines) := by
  have hemit : emitExpr generator.setting (.atom (.raw code))
      = emitLines generator.setting code.lines := if_pos hraw
  have hadds := adds_emitLines generator.setting 0 code.lines
  rw [Nat.zero_mul] at hadds
  rw [generateExpression_eq_ok, hemit, String.toList_intercalate]
  exact ⟨false, hadds⟩

/-- Raw code of a text has one line more than the text has line feeds, no line has a carriage return or
a line feed in it, and joined by line feeds the lines are the text without its carriage returns. Lines
without these characters are the lines of the text they are joined to by either kind of line break. Where
raw code is allowed it is written as the text without its carriage returns. -/
theorem raw_text_survives :
    (∀ text : String,
      (RawCode.ofText text).lines.length = text.toList.count '\n' + 1 ∧
      (∀ line ∈ (RawCode.ofText text).lines, IsUnbroken line) ∧
      "\n".intercalate (RawCode.ofText text).lines = withoutReturns text) ∧
    (∀ lines : List String, lines ≠ [] → (∀ line ∈ lines, IsUnbroken line) →
      RawCode.ofText ("\n".intercalate lines) = ⟨lines⟩ ∧
      RawCode.ofText ("\r\n".intercalate lines) = ⟨lines⟩) ∧
    ∀ (generator : Generator) (text : String), generator.setting.config.allowRaw = true →
      (generator.generateExpression (.atom (.raw (RawCode.ofText text)))).1
        = .ok (withoutReturns text) := by
  refine ⟨fun text => ?_, fun lines hne hlines => ?_, fun generator text hraw => ?_⟩
  · exact ⟨RawCode.length_lines_ofText text, fun _ => RawCode.isUnbroken_of_mem_ofText,
      RawCode.intercalate_lines_ofText text⟩
  · exact ⟨RawCode.ofText_intercalate hne hlines (by decide),
      RawCode.ofText_intercalate hne hlines (by decide)⟩
  · rw [generateExpression_raw hraw, RawCode.intercalate_lines_ofText]

/-- Three lines, the second one empty, joined by carriage returns and line feeds. -/
theorem raw_text_of_three_lines :
    (∀ line ∈ ["a", "", "b"], IsUnbroken line) ∧
    RawCode.ofText ("\r\n".intercalate ["a", "", "b"]) = ⟨["a", "", "b"]⟩ ∧
    ((Generator.new .empty { allowRaw := true, indentWidth := 4 }).generateExpression
      (.atom (.raw (RawCode.ofText "a\r\n\r\nb")))).1 = .ok (withoutReturns "a\r\n\r\nb") ∧
    withoutReturns "a\r\n\r\nb" = "a\n\nb" := by
  have hlines : ∀ line ∈ ["a", "", "b"], IsUnbroken line := by decide
  exact ⟨hlines, (raw_text_survives.2.1 _ (by decide) hlines).2,
    raw_text_survives.2.2 _ "a\r\n\r\nb" rfl, by decide⟩

end Lua

end CodeTree
