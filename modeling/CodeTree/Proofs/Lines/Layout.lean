import CodeTree.Proofs.Emission.Frame

/-! # Texts that stand at any depth

What is written at one depth is written at every other, with more or fewer spaces at the beginnings of
lines. A layout is such a text with the depth left open: its line breaks say how deep the line behind
them is nested in it.

* `Layout`, `Layout.text`: a layout and its text at a depth.
* `Layout.exists_lines`, `Layout.exists_wholeLines`: the lines of a layout.
* `Lays`, `LaysLines`: actions that write a layout, or lines of their own.
* `Lays.bind`, `Lays.capture`, `LaysLines.inside`: layouts from layouts. -/

namespace CodeTree.Lua

set_option autoImplicit false

/-! ## Layouts -/

/-- A character, or a line break before a line that is nested `depth` deep. -/
inductive Glyph
  | char (c : Char)
  | lineBreak (depth : Nat)

namespace Glyph

def text (width n : Nat) : Glyph → List Char
  | char c => [c]
  | lineBreak depth => '\n' :: List.replicate ((n + depth) * width) ' '

def depth? : Glyph → Option Nat
  | char _ => none
  | lineBreak depth => some depth

def deeper : Glyph → Glyph
  | char c => char c
  | lineBreak depth => lineBreak (depth + 1)

/-- The character that a glyph begins with. -/
def opening : Glyph → Char
  | char c => c
  | lineBreak _ => '\n'

end Glyph

abbrev Layout := List Glyph

namespace Layout

/-- The text of a layout at depth `n`. -/
def text (width n : Nat) (layout : Layout) : List Char := layout.flatMap (Glyph.text width n)

/-- The depths of the lines that a layout begins, in order. -/
def depths (layout : Layout) : List Nat := layout.filterMap Glyph.depth?

def deeper (layout : Layout) : Layout := layout.map Glyph.deeper

def ofText (w : List Char) : Layout := w.map .char

/-- All line feeds stand at line breaks. -/
def Unbroken (layout : Layout) : Prop := .char '\n' ∉ layout

section Lemmas

variable {width n : Nat} {layout layout' : Layout} {w : List Char}

@[simp] theorem text_append :
    text width n (layout ++ layout') = text width n layout ++ text width n layout' :=
  List.flatMap_append

@[simp] theorem text_ofText : text width n (ofText w) = w := by
  induction w with
  | nil => rfl
  | cons c w ih => exact congrArg (c :: ·) ih

@[simp] theorem text_lineBreak (depth : Nat) : text width n (.lineBreak depth :: layout) =
    '\n' :: (List.replicate ((n + depth) * width) ' ' ++ text width n layout) := rfl

/-- To go one step further in is to be one step deeper. -/
@[simp] theorem text_deeper : text width n layout.deeper = text width (n + 1) layout := by
  rw [text, deeper, List.flatMap_map, text]
  congr 1
  funext glyph
  cases glyph with
  | char c => rfl
  | lineBreak depth => rw [Glyph.deeper, Glyph.text, Glyph.text, Nat.add_right_comm, Nat.add_assoc]

/-- What a text begins with does not depend on the depth. -/
theorem head?_text : (text width n layout).head? = layout.head?.map Glyph.opening := by
  match layout with
  | [] => rfl
  | .char c :: layout => rfl
  | .lineBreak depth :: layout => rfl

@[simp] theorem depths_append : depths (layout ++ layout') = depths layout ++ depths layout' :=
  List.filterMap_append

@[simp] theorem depths_ofText : depths (ofText w) = [] := by
  simp [depths, ofText, Glyph.depth?]

@[simp] theorem depths_lineBreak (depth : Nat) :
    depths (.lineBreak depth :: layout) = depth :: depths layout := rfl

@[simp] theorem depths_deeper : depths layout.deeper = layout.depths.map (· + 1) := by
  rw [depths, deeper, List.filterMap_map, depths, List.map_filterMap]
  congr 1
  funext glyph
  cases glyph <;> rfl

@[simp] theorem unbroken_append : Unbroken (layout ++ layout') ↔ layout.Unbroken ∧ layout'.Unbroken := by
  simp [Unbroken]

@[simp] theorem unbroken_ofText : Unbroken (ofText w) ↔ '\n' ∉ w := by
  simp [Unbroken, ofText]

@[simp] theorem unbroken_lineBreak (depth : Nat) :
    Unbroken (.lineBreak depth :: layout) ↔ layout.Unbroken := by
  simp [Unbroken]

@[simp] theorem unbroken_char (c : Char) :
    Unbroken (.char c :: layout) ↔ '\n' ≠ c ∧ layout.Unbroken := by
  simp [Unbroken]

@[simp] theorem unbroken_deeper : Unbroken layout.deeper ↔ layout.Unbroken := by
  induction layout with
  | nil => rfl
  | cons glyph layout ih =>
    cases glyph with
    | char c => exact (unbroken_char c).trans ((and_congr_right' ih).trans (unbroken_char c).symm)
    | lineBreak depth => exact (unbroken_lineBreak _).trans (ih.trans (unbroken_lineBreak _).symm)

end Lemmas

end Layout

/-! ## Lines -/

/-- A line without the spaces that it is indented by. -/
structure Line where
  depth : Nat
  text : List Char
  unbroken : '\n' ∉ text

def Line.indented (width n : Nat) (line : Line) : List Char :=
  List.replicate ((n + line.depth) * width) ' ' ++ line.text

/-- Line feeds before lines, and one at the end, are one line feed and then one behind each line. -/
theorem flatMap_newline_append (f : Line → List Char) (lines : List Line) :
    (lines.flatMap fun line => '\n' :: f line) ++ ['\n'] =
      '\n' :: lines.flatMap fun line => f line ++ ['\n'] := by
  induction lines with
  | nil => rfl
  | cons line lines ih => simp [ih]

/-- A layout is the rest of a line and some more lines. -/
theorem Layout.exists_lines (layout : Layout) (h : layout.Unbroken) :
    ∃ (first : List Char) (lines : List Line), '\n' ∉ first ∧ lines.map Line.depth = layout.depths ∧
      ∀ width n, layout.text width n =
        first ++ lines.flatMap fun line => '\n' :: line.indented width n := by
  induction layout with
  | nil => exact ⟨[], [], List.not_mem_nil, rfl, fun _ _ => rfl⟩
  | cons glyph layout ih =>
    cases glyph with
    | char c =>
      obtain ⟨hc, hrest⟩ := (unbroken_char c).1 h
      obtain ⟨first, lines, hfirst, hdepths, htext⟩ := ih hrest
      exact ⟨c :: first, lines, by simp [hc, hfirst], hdepths,
        fun width n => congrArg (c :: ·) (htext width n)⟩
    | lineBreak depth =>
      obtain ⟨first, lines, hfirst, hdepths, htext⟩ := ih ((unbroken_lineBreak depth).1 h)
      refine ⟨[], ⟨depth, first, hfirst⟩ :: lines, List.not_mem_nil,
        congrArg (depth :: ·) hdepths, fun width n => ?_⟩
      rw [text_lineBreak, htext]
      simp [Line.indented]

/-- A layout behind which a line feed ends what another line feed began is whole lines. -/
theorem Layout.exists_wholeLines (layout : Layout) (h : layout.Unbroken) :
    ∃ lines : List Line, lines.map Line.depth = layout.depths ∧
      ∀ width n w, '\n' :: w = layout.text width n ++ ['\n'] →
        w = lines.flatMap fun line => line.indented width n ++ ['\n'] := by
  obtain ⟨first, lines, hfirst, hdepths, htext⟩ := layout.exists_lines h
  refine ⟨lines, hdepths, fun width n w hw => ?_⟩
  rw [htext] at hw
  cases first with
  | nil =>
    rw [List.nil_append, flatMap_newline_append] at hw
    exact (List.cons.inj hw).2
  | cons c first =>
    obtain rfl : '\n' = c := (List.cons.inj hw).1
    exact absurd List.mem_cons_self hfirst

/-! ## What writes a layout -/

section Actions

variable {α β : Type} {P : Prop} {width : Nat} {ds ds' : List Nat}

/-- At every depth the action writes one layout, with lines at the depths `ds` and under `P` without other
line feeds, or stops with one error. -/
def Lays (P : Prop) (width : Nat) (action : Emit α) (ds : List Nat) : Prop :=
  (∃ (a : α) (layout : Layout) (bit : Bool), layout.depths = ds ∧ (P → layout.Unbroken) ∧
      ∀ n, Adds action n a (layout.text width n) bit) ∨
    ∃ error, ∀ n, Stops action n error

/-- The same for an action that begins where a line begins and ends there. -/
def LaysLines (P : Prop) (width : Nat) (action : Emit Unit) (ds : List Nat) : Prop :=
  (∃ (layout : Layout) (bit : Bool), layout.depths = ds ∧ (P → layout.Unbroken) ∧
      ∀ n, ∃ w, '\n' :: w = layout.text width n ++ ['\n'] ∧ Adds action n () w bit) ∨
    ∃ error, ∀ n, Stops action n error

theorem Lays.bind {action : Emit α} {next : α → Emit β} (h : Lays P width action ds)
    (hnext : ∀ a, Lays P width (next a) ds') : Lays P width (action >>= next) (ds ++ ds') := by
  rcases h with ⟨a, layout, bit, rfl, hunbroken, hadds⟩ | ⟨error, hstops⟩
  · rcases hnext a with ⟨b, layout', bit', rfl, hunbroken', hadds'⟩ | ⟨error, hstops'⟩
    · refine .inl ⟨b, layout ++ layout', bit || bit', Layout.depths_append,
        fun hP => Layout.unbroken_append.2 ⟨hunbroken hP, hunbroken' hP⟩, fun n => ?_⟩
      rw [Layout.text_append]
      exact (hadds n).bind (hadds' n)
    · exact .inr ⟨error, fun n => (hadds n).bind_stops (hstops' n)⟩
  · exact .inr ⟨error, fun n => (hstops n).bind⟩

/-- An action without line breaks before another one. -/
theorem Lays.then {action : Emit α} {next : α → Emit β} (h : Lays P width action [])
    (hnext : ∀ a, Lays P width (next a) ds) : Lays P width (action >>= next) ds := h.bind hnext

/-- An action without line breaks behind another one. -/
theorem Lays.before {action : Emit α} {next : α → Emit β} (h : Lays P width action ds)
    (hnext : ∀ a, Lays P width (next a) []) : Lays P width (action >>= next) ds := by
  simpa using h.bind hnext

theorem lays_of_adds {action : Emit α} {a : α} {w : List Char} {bit : Bool} (hw : P → '\n' ∉ w)
    (h : ∀ n, Adds action n a w bit) : Lays P width action [] := by
  refine .inl ⟨a, .ofText w, bit, Layout.depths_ofText, fun hP => Layout.unbroken_ofText.2 (hw hP),
    fun n => ?_⟩
  rw [Layout.text_ofText]
  exact h n

theorem lays_pure (a : α) : Lays P width (pure a) [] :=
  lays_of_adds (fun _ => List.not_mem_nil) (adds_pure a)

theorem lays_useBitLibrary : Lays P width useBitLibrary [] :=
  lays_of_adds (fun _ => List.not_mem_nil) adds_useBitLibrary

theorem lays_write_of {text : String} (h : P → '\n' ∉ text.toList) : Lays P width (write text) [] :=
  lays_of_adds h (adds_write text)

theorem lays_write {text : String} (h : '\n' ∉ text.toList) : Lays P width (write text) [] :=
  lays_write_of fun _ => h

theorem lays_refuse (error : EmitError) : Lays P width (refuse error : Emit α) ds :=
  .inr ⟨error, stops_refuse error⟩

/-- A captured text with something put in front of it, if it begins in a certain way. -/
theorem Lays.capture {action : Emit Unit} (h : Lays P width action ds) (chosen : String → Bool)
    {extra : String} (hextra : '\n' ∉ extra.toList)
    (hchosen : ∀ text text' : String, text.toList.head? = text'.toList.head? →
      chosen text = chosen text') :
    Lays P width (capture action >>= fun text => write (if chosen text then extra ++ text else text))
      ds := by
  rcases h with ⟨_, layout, bit, rfl, hunbroken, hadds⟩ | ⟨error, hstops⟩
  · have hsame : ∀ n, chosen (.ofList (layout.text width n)) = chosen (.ofList (layout.text width 0)) :=
      fun n => hchosen _ _ (by simp only [String.toList_ofList, Layout.head?_text])
    have hwrite : ∀ n, Adds (Lua.capture action >>= fun text =>
        write (if chosen text then extra ++ text else text)) n () _ _ :=
      fun n => (hadds n).capture.bind (adds_write _ n)
    simp only [hsame] at hwrite
    cases hc : chosen (.ofList (layout.text width 0)) with
    | false => exact .inl ⟨(), layout, bit, rfl, hunbroken, fun n => by simpa [hc] using hwrite n⟩
    | true =>
      exact .inl ⟨(), .ofText extra.toList ++ layout, bit, by simp,
        fun hP => by simp [hextra, hunbroken hP], fun n => by simpa [hc] using hwrite n⟩
  · exact .inr ⟨error, fun n => (hstops n).capture.bind⟩

theorem Adds.indented {action : Emit α} {n : Nat} {a : α} {w : List Char} {bit : Bool}
    (h : Adds action n a w bit) : Adds (indent width >>= fun _ => action) n a
      (List.replicate (n * width) ' ' ++ w) bit := by
  have hall : Adds (indent width >>= fun _ => action) n a _ _ := (adds_indent width n).bind h
  rwa [Bool.false_or] at hall

/-- Going on in a new line. -/
theorem Lays.afterBreak {action : Emit α} (h : Lays P width action ds) :
    Lays P width (newline >>= fun _ => indent width >>= fun _ => action) (0 :: ds) := by
  rcases h with ⟨a, layout, bit, rfl, hunbroken, hadds⟩ | ⟨error, hstops⟩
  · refine .inl ⟨a, .lineBreak 0 :: layout, bit, rfl,
      fun hP => (Layout.unbroken_lineBreak 0).2 (hunbroken hP), fun n => ?_⟩
    have hline : Adds (newline >>= fun _ => indent width >>= fun _ => action) n a _ _ :=
      (adds_write "\n" n).bind (hadds n).indented
    simpa using hline
  · exact .inr ⟨error, fun n => (adds_write "\n" n).bind_stops
      ((adds_indent width n).bind_stops (hstops n))⟩

/-! ## Lines of their own -/

theorem laysLines_pure : LaysLines P width (pure ()) [] :=
  .inl ⟨[], false, rfl, fun _ => List.not_mem_nil, fun n => ⟨[], rfl, adds_pure () n⟩⟩

theorem laysLines_refuse (error : EmitError) : LaysLines P width (refuse error) ds :=
  .inr ⟨error, stops_refuse error⟩

/-- The line feed that ends the first lines begins the next ones. -/
theorem LaysLines.bind {action next : Emit Unit} (h : LaysLines P width action ds)
    (hnext : LaysLines P width next ds') :
    LaysLines P width (action >>= fun _ => next) (ds ++ ds') := by
  rcases h with ⟨layout, bit, rfl, hunbroken, hadds⟩ | ⟨error, hstops⟩
  · rcases hnext with ⟨layout', bit', rfl, hunbroken', hadds'⟩ | ⟨error, hstops'⟩
    · refine .inl ⟨layout ++ layout', bit || bit', Layout.depths_append,
        fun hP => Layout.unbroken_append.2 ⟨hunbroken hP, hunbroken' hP⟩, fun n => ?_⟩
      obtain ⟨w, hw, hfirst⟩ := hadds n
      obtain ⟨w', hw', hsecond⟩ := hadds' n
      refine ⟨w ++ w', ?_, hfirst.bind hsecond⟩
      calc '\n' :: (w ++ w') = layout.text width n ++ '\n' :: w' := by
            rw [← List.cons_append, hw, List.append_assoc, List.singleton_append]
        _ = (layout ++ layout').text width n ++ ['\n'] := by
            rw [hw', Layout.text_append, List.append_assoc]
    · refine .inr ⟨error, fun n => ?_⟩
      obtain ⟨w, -, hfirst⟩ := hadds n
      exact hfirst.bind_stops (hstops' n)
  · exact .inr ⟨error, fun n => (hstops n).bind⟩

theorem LaysLines.deeper {action : Emit Unit} (h : LaysLines P width action ds) :
    LaysLines P width (deeper action) (ds.map (· + 1)) := by
  rcases h with ⟨layout, bit, rfl, hunbroken, hadds⟩ | ⟨error, hstops⟩
  · refine .inl ⟨layout.deeper, bit, Layout.depths_deeper,
      fun hP => Layout.unbroken_deeper.2 (hunbroken hP), fun n => ?_⟩
    obtain ⟨w, hw, hlines⟩ := hadds (n + 1)
    exact ⟨w, by rw [hw, Layout.text_deeper], hlines.deeper⟩
  · exact .inr ⟨error, fun n => (hstops (n + 1)).deeper⟩

/-- A layout as a line, with the lines that it begins behind it. -/
theorem Lays.line {action : Emit Unit} (h : Lays P width action ds) :
    LaysLines P width (indent width >>= fun _ => action >>= fun _ => newline) (0 :: ds) := by
  rcases h with ⟨_, layout, bit, rfl, hunbroken, hadds⟩ | ⟨error, hstops⟩
  · refine .inl ⟨.lineBreak 0 :: layout, bit, rfl,
      fun hP => (Layout.unbroken_lineBreak 0).2 (hunbroken hP), fun n => ?_⟩
    have hline : Adds (action >>= fun _ => newline) n () _ _ := (hadds n).bind (adds_write "\n" n)
    rw [Bool.or_false] at hline
    exact ⟨_, by simp, hline.indented⟩
  · exact .inr ⟨error, fun n => (adds_indent width n).bind_stops (hstops n).bind⟩

/-- Lines one step further in, between two texts. -/
theorem LaysLines.inside {lines : Emit Unit} {next : Emit α} (h : LaysLines P width lines ds)
    (hnext : Lays P width next ds') :
    Lays P width (newline >>= fun _ => Lua.deeper lines >>= fun _ => indent width >>= fun _ => next)
      (ds.map (· + 1) ++ 0 :: ds') := by
  rcases h.deeper with ⟨layout, bit, hds, hunbroken, hadds⟩ | ⟨error, hstops⟩
  · rcases hnext with ⟨a, layout', bit', rfl, hunbroken', hadds'⟩ | ⟨error, hstops'⟩
    · refine .inl ⟨a, layout ++ .lineBreak 0 :: layout', bit || bit', by simp [hds],
        fun hP => by simp [hunbroken hP, hunbroken' hP], fun n => ?_⟩
      obtain ⟨w, hw, hlines⟩ := hadds n
      have hrest : Adds (Lua.deeper lines >>= fun _ => indent width >>= fun _ => next) n a _ _ :=
        hlines.bind (hadds' n).indented
      have hall : Adds (newline >>= fun _ => Lua.deeper lines >>= fun _ => indent width >>= fun _ =>
          next) n a _ _ := (adds_write "\n" n).bind hrest
      have htext : (layout ++ .lineBreak 0 :: layout').text width n =
          '\n' :: w ++ (List.replicate (n * width) ' ' ++ layout'.text width n) := by
        rw [hw]
        simp
      rw [htext]
      simpa using hall
    · refine .inr ⟨error, fun n => ?_⟩
      obtain ⟨w, -, hlines⟩ := hadds n
      exact (adds_write "\n" n).bind_stops
        (hlines.bind_stops ((adds_indent width n).bind_stops (hstops' n)))
  · exact .inr ⟨error, fun n => (adds_write "\n" n).bind_stops (hstops n).bind⟩

end Actions

end CodeTree.Lua
