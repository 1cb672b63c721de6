import CodeTree.Lua.Emit

/-! # What writing adds to a draft

A tidy action adds text and may mark the `bit` library as used. What it adds, and whether it stops,
depends on the depth of the draft and on nothing else in it. The actions of the emitter are built from
tidy ones by sequencing, capturing and indenting, so all of them are tidy.

* `Adds action n a w bit`: at depth `n` the action ends with `a`, adds `w`, and uses the library if `bit`.
* `Tidy action`: at each depth the action adds one thing on every draft, or stops on every draft.
* `Yields action n a w`: the same as `Adds`, whatever the use of the library.
* `tidy_emitExpr` and `tidy_emitStatements`: writing a tree is tidy. -/

namespace CodeTree.Lua

set_option autoImplicit false
set_option synthInstance.maxSize 1000

def Draft.add (d : Draft) (w : List Char) (bit : Bool) : Draft :=
  ⟨d.text ++ String.ofList w, d.depth, d.usesBitLibrary || bit⟩

@[simp] theorem Draft.add_depth (d : Draft) (w : List Char) (bit : Bool) :
    (d.add w bit).depth = d.depth := rfl

@[simp] theorem Draft.add_nil (d : Draft) : d.add [] false = d := by
  cases d
  simp [Draft.add]

theorem Draft.add_add (d : Draft) (w₁ w₂ : List Char) (b₁ b₂ : Bool) :
    (d.add w₁ b₁).add w₂ b₂ = d.add (w₁ ++ w₂) (b₁ || b₂) := by
  simp [Draft.add, String.append_assoc, Bool.or_assoc]

theorem Draft.add_text_inj {d : Draft} {w₁ w₂ : List Char} {b₁ b₂ : Bool}
    (h : d.add w₁ b₁ = d.add w₂ b₂) : w₁ = w₂ := by
  have htext : (d.add w₁ b₁).text.toList = (d.add w₂ b₂).text.toList := by rw [h]
  simpa [Draft.add] using htext

section Actions

variable {α β : Type}

/-- At depth `n` the action ends with `a` and adds `w`. -/
def Adds (action : Emit α) (n : Nat) (a : α) (w : List Char) (bit : Bool) : Prop :=
  ∀ d : Draft, d.depth = n → action d = .ok a (d.add w bit)

/-- At depth `n` the action stops with `error`. -/
def Stops (action : Emit α) (n : Nat) (error : EmitError) : Prop :=
  ∀ d : Draft, d.depth = n → ∃ d', action d = .error error d'

/-- What the action does depends only on the depth. -/
class Tidy (action : Emit α) : Prop where
  adds_or_stops : ∀ n, (∃ a w bit, Adds action n a w bit) ∨ ∃ error, Stops action n error

/-- At depth `n` the action ends with `a` and adds `w`, with or without the `bit` library. -/
def Yields (action : Emit α) (n : Nat) (a : α) (w : List Char) : Prop :=
  ∃ bit, Adds action n a w bit

/-! ## One action after another -/

theorem Adds.bind {action : Emit α} {next : α → Emit β} {n : Nat} {a : α} {b : β}
    {w₁ w₂ : List Char} {b₁ b₂ : Bool} (h₁ : Adds action n a w₁ b₁) (h₂ : Adds (next a) n b w₂ b₂) :
    Adds (action >>= next) n b (w₁ ++ w₂) (b₁ || b₂) := by
  intro d hd
  have hnext := h₂ (d.add w₁ b₁) hd
  rw [Draft.add_add] at hnext
  show EStateM.bind action next d = _
  rw [EStateM.bind, h₁ d hd]
  exact hnext

theorem Stops.bind {action : Emit α} {next : α → Emit β} {n : Nat} {error : EmitError}
    (h : Stops action n error) : Stops (action >>= next) n error := by
  intro d hd
  obtain ⟨d', hd'⟩ := h d hd
  refine ⟨d', ?_⟩
  show EStateM.bind action next d = _
  rw [EStateM.bind, hd']

theorem Adds.bind_stops {action : Emit α} {next : α → Emit β} {n : Nat} {a : α}
    {w : List Char} {bit : Bool} {error : EmitError} (h₁ : Adds action n a w bit)
    (h₂ : Stops (next a) n error) : Stops (action >>= next) n error := by
  intro d hd
  obtain ⟨d', hd'⟩ := h₂ (d.add w bit) hd
  refine ⟨d', ?_⟩
  show EStateM.bind action next d = _
  rw [EStateM.bind, h₁ d hd]
  exact hd'

theorem Tidy.bind {action : Emit α} {next : α → Emit β} (h₁ : Tidy action)
    (h₂ : ∀ a, Tidy (next a)) : Tidy (action >>= next) := by
  refine ⟨fun n => ?_⟩
  rcases h₁.adds_or_stops n with ⟨a, w₁, b₁, ha⟩ | ⟨error, ha⟩
  · rcases (h₂ a).adds_or_stops n with ⟨b, w₂, b₂, hb⟩ | ⟨error, hb⟩
    · exact .inl ⟨b, w₁ ++ w₂, b₁ || b₂, ha.bind hb⟩
    · exact .inr ⟨error, ha.bind_stops hb⟩
  · exact .inr ⟨error, ha.bind⟩

instance {action : Emit α} {next : α → Emit β} [h₁ : Tidy action] [h₂ : ∀ a, Tidy (next a)] :
    Tidy (action >>= next) := h₁.bind h₂

instance {c : Prop} [Decidable c] {action action' : Emit α} [Tidy action] [Tidy action'] :
    Tidy (if c then action else action') := by
  split <;> infer_instance

theorem Adds.unique {action : Emit α} {n : Nat} {a a' : α} {w w' : List Char} {b b' : Bool}
    (h : Adds action n a w b) (h' : Adds action n a' w' b') : a = a' ∧ w = w' := by
  have heq := (h ⟨"", n, false⟩ rfl).symm.trans (h' ⟨"", n, false⟩ rfl)
  injection heq with ha hd
  exact ⟨ha, Draft.add_text_inj hd⟩

theorem Adds.unique_library {action : Emit α} {n : Nat} {a a' : α} {w w' : List Char} {b b' : Bool}
    (h : Adds action n a w b) (h' : Adds action n a' w' b') : w = w' ∧ b = b' := by
  have heq := (h ⟨"", n, false⟩ rfl).symm.trans (h' ⟨"", n, false⟩ rfl)
  injection heq with _ hd
  exact ⟨Draft.add_text_inj hd, by simpa [Draft.add] using congrArg Draft.usesBitLibrary hd⟩

theorem Adds.not_stops {action : Emit α} {n : Nat} {a : α} {w : List Char} {bit : Bool}
    {error : EmitError} (h : Adds action n a w bit) : ¬ Stops action n error := by
  intro hs
  obtain ⟨d', hd'⟩ := hs ⟨"", n, false⟩ rfl
  rw [h _ rfl] at hd'
  cases hd'

/-- What two actions yield one after the other is what the first yields followed by what the second
does. -/
theorem yields_bind {action : Emit α} {next : α → Emit β} [h₁ : Tidy action]
    [h₂ : ∀ a, Tidy (next a)] {n : Nat} {b : β} {w : List Char} :
    Yields (action >>= next) n b w ↔
      ∃ a w₁ w₂, Yields action n a w₁ ∧ Yields (next a) n b w₂ ∧ w = w₁ ++ w₂ := by
  constructor
  · rintro ⟨bit, h⟩
    rcases h₁.adds_or_stops n with ⟨a, w₁, b₁, ha⟩ | ⟨error, ha⟩
    · rcases (h₂ a).adds_or_stops n with ⟨b', w₂, b₂, hb⟩ | ⟨error, hb⟩
      · obtain ⟨rfl, rfl⟩ := h.unique (ha.bind hb)
        exact ⟨a, w₁, w₂, ⟨b₁, ha⟩, ⟨b₂, hb⟩, rfl⟩
      · exact absurd (ha.bind_stops hb) h.not_stops
    · exact absurd ha.bind h.not_stops
  · rintro ⟨a, w₁, w₂, ⟨b₁, ha⟩, ⟨b₂, hb⟩, rfl⟩
    exact ⟨b₁ || b₂, ha.bind hb⟩

end Actions

/-! ## The primitive actions -/

section Primitives

variable {α : Type}

theorem adds_pure (a : α) (n : Nat) : Adds (pure a) n a [] false := by
  intro d _
  rw [Draft.add_nil]
  rfl

theorem adds_write (text : String) (n : Nat) : Adds (write text) n () text.toList false := by
  intro d _
  show EStateM.Result.ok () _ = EStateM.Result.ok () (d.add text.toList false)
  rw [Draft.add, String.ofList_toList, Bool.or_false]

theorem adds_indent (width n : Nat) :
    Adds (indent width) n () (List.replicate (n * width) ' ') false := by
  rintro d rfl
  show EStateM.Result.ok () _ = EStateM.Result.ok () (d.add _ false)
  rw [Draft.add, Bool.or_false]
  rfl

theorem adds_useBitLibrary (n : Nat) : Adds useBitLibrary n () [] true := by
  intro d _
  show EStateM.Result.ok () _ = EStateM.Result.ok () (d.add [] true)
  simp [Draft.add]

theorem stops_refuse (error : EmitError) (n : Nat) : Stops (refuse error : Emit α) n error :=
  fun d _ => ⟨d, rfl⟩

theorem capture_apply (action : Emit Unit) (d : Draft) :
    capture action d =
      match action { d with text := "" } with
      | .ok _ d' => .ok d'.text { d' with text := d.text }
      | .error error d' => .error error d' := by
  show EStateM.run (capture action) d = match EStateM.run action { d with text := "" } with
    | .ok _ d' => .ok d'.text { d' with text := d.text }
    | .error error d' => .error error d'
  simp only [capture, EStateM.run_bind, EStateM.run_get, EStateM.run_modify]
  cases EStateM.run action { d with text := "" } <;> rfl

theorem deeper_apply (action : Emit Unit) (d : Draft) :
    deeper action d =
      match action { d with depth := d.depth + 1 } with
      | .ok _ d' => .ok () { d' with depth := d'.depth - 1 }
      | .error error d' => .error error d' := by
  show EStateM.run (deeper action) d = match EStateM.run action { d with depth := d.depth + 1 } with
    | .ok _ d' => .ok () { d' with depth := d'.depth - 1 }
    | .error error d' => .error error d'
  simp only [deeper, EStateM.run_bind, EStateM.run_modify]
  cases EStateM.run action { d with depth := d.depth + 1 } <;> rfl

theorem Adds.capture {action : Emit Unit} {n : Nat} {w : List Char} {bit : Bool}
    (h : Adds action n () w bit) : Adds (capture action) n (String.ofList w) [] bit := by
  intro d hd
  rw [capture_apply, h { d with text := "" } hd]
  simp [Draft.add]

theorem Stops.capture {action : Emit Unit} {n : Nat} {error : EmitError}
    (h : Stops action n error) : Stops (capture action) n error := by
  intro d hd
  obtain ⟨d', hrun⟩ := h { d with text := "" } hd
  exact ⟨d', by rw [capture_apply, hrun]⟩

theorem Adds.deeper {action : Emit Unit} {n : Nat} {w : List Char} {bit : Bool}
    (h : Adds action (n + 1) () w bit) : Adds (deeper action) n () w bit := by
  intro d hd
  rw [deeper_apply, h { d with depth := d.depth + 1 } (by rw [hd])]
  simp [Draft.add]

theorem Stops.deeper {action : Emit Unit} {n : Nat} {error : EmitError}
    (h : Stops action (n + 1) error) : Stops (deeper action) n error := by
  intro d hd
  obtain ⟨d', hrun⟩ := h { d with depth := d.depth + 1 } (by rw [hd])
  exact ⟨d', by rw [deeper_apply, hrun]⟩

instance tidy_pure (a : α) : Tidy (pure a : Emit α) :=
  ⟨fun n => .inl ⟨a, [], false, adds_pure a n⟩⟩

instance tidy_write (text : String) : Tidy (write text) :=
  ⟨fun n => .inl ⟨(), text.toList, false, adds_write text n⟩⟩

instance tidy_newline : Tidy newline := tidy_write "\n"

instance tidy_indent (width : Nat) : Tidy (indent width) :=
  ⟨fun n => .inl ⟨(), _, false, adds_indent width n⟩⟩

instance tidy_useBitLibrary : Tidy useBitLibrary :=
  ⟨fun n => .inl ⟨(), [], true, adds_useBitLibrary n⟩⟩

instance tidy_refuse (error : EmitError) : Tidy (refuse error : Emit α) :=
  ⟨fun n => .inr ⟨error, stops_refuse error n⟩⟩

instance tidy_capture {action : Emit Unit} [h : Tidy action] : Tidy (capture action) := by
  refine ⟨fun n => ?_⟩
  rcases h.adds_or_stops n with ⟨_, w, bit, ha⟩ | ⟨error, hs⟩
  · exact .inl ⟨_, [], bit, ha.capture⟩
  · exact .inr ⟨error, hs.capture⟩

instance tidy_deeper {action : Emit Unit} [h : Tidy action] : Tidy (deeper action) := by
  refine ⟨fun n => ?_⟩
  rcases h.adds_or_stops (n + 1) with ⟨_, w, bit, ha⟩ | ⟨error, hs⟩
  · exact .inl ⟨(), w, bit, ha.deeper⟩
  · exact .inr ⟨error, hs.deeper⟩

theorem yields_iff_of_adds {action : Emit α} {n : Nat} {a b : α} {w v : List Char} {bit : Bool}
    (h : Adds action n a w bit) : Yields action n b v ↔ b = a ∧ v = w := by
  constructor
  · rintro ⟨bit', h'⟩
    exact h'.unique h
  · rintro ⟨rfl, rfl⟩
    exact ⟨bit, h⟩

@[simp] theorem yields_pure {a b : α} {n : Nat} {w : List Char} :
    Yields (pure a) n b w ↔ b = a ∧ w = [] := yields_iff_of_adds (adds_pure a n)

@[simp] theorem yields_write {text : String} {n : Nat} {w : List Char} :
    Yields (write text) n () w ↔ w = text.toList := by
  simpa using yields_iff_of_adds (b := ()) (v := w) (adds_write text n)

@[simp] theorem yields_newline {n : Nat} {w : List Char} : Yields newline n () w ↔ w = ['\n'] :=
  yields_write

@[simp] theorem yields_indent {width n : Nat} {w : List Char} :
    Yields (indent width) n () w ↔ w = List.replicate (n * width) ' ' := by
  simpa using yields_iff_of_adds (b := ()) (v := w) (adds_indent width n)

@[simp] theorem yields_useBitLibrary {n : Nat} {w : List Char} :
    Yields useBitLibrary n () w ↔ w = [] := by
  simpa using yields_iff_of_adds (b := ()) (v := w) (adds_useBitLibrary n)

@[simp] theorem not_yields_refuse {error : EmitError} {a : α} {n : Nat} {w : List Char} :
    ¬ Yields (refuse error) n a w := by
  rintro ⟨bit, h⟩
  exact h.not_stops (stops_refuse error n)

theorem yields_capture {action : Emit Unit} [ht : Tidy action] {n : Nat} {text : String}
    {w : List Char} : Yields (capture action) n text w ↔ Yields action n () text.toList ∧ w = [] := by
  rcases ht.adds_or_stops n with ⟨_, v, bit, ha⟩ | ⟨error, hs⟩
  · rw [yields_iff_of_adds ha.capture, yields_iff_of_adds ha]
    constructor
    · rintro ⟨rfl, rfl⟩
      exact ⟨⟨rfl, String.toList_ofList⟩, rfl⟩
    · rintro ⟨⟨-, hv⟩, rfl⟩
      exact ⟨by rw [← hv, String.ofList_toList], rfl⟩
  · exact iff_of_false (fun ⟨_, h⟩ => h.not_stops hs.capture) (fun ⟨⟨_, h⟩, _⟩ => h.not_stops hs)

@[simp] theorem yields_deeper {action : Emit Unit} [ht : Tidy action] {n : Nat} {w : List Char} :
    Yields (deeper action) n () w ↔ Yields action (n + 1) () w := by
  rcases ht.adds_or_stops (n + 1) with ⟨_, v, bit, ha⟩ | ⟨error, hs⟩
  · rw [yields_iff_of_adds ha.deeper, yields_iff_of_adds ha]
  · exact iff_of_false (fun ⟨_, h⟩ => h.not_stops hs.deeper) (fun ⟨_, h⟩ => h.not_stops hs)

end Primitives

/-! ## The forms of nodes -/

section Forms

variable {g : Setting}

theorem nameOf_eq (g : Setting) (s : Symbol) :
    nameOf g s = match g.names.resolve s with
      | some name => pure name
      | none => refuse (.tree (.unknownSymbol s)) := by
  rw [nameOf, NameTable.name]
  cases g.names.resolve s <;> rfl

instance tidy_nameOf (g : Setting) (s : Symbol) : Tidy (nameOf g s) := by
  rw [nameOf_eq]
  cases g.names.resolve s <;> infer_instance

@[simp] theorem yields_nameOf {s : Symbol} {n : Nat} {name : String} {w : List Char} :
    Yields (nameOf g s) n name w ↔ g.names.resolve s = some name ∧ w = [] := by
  rw [nameOf_eq]
  cases g.names.resolve s with
  | none => simp
  | some text => simp [eq_comm]

instance tidy_writeName (g : Setting) (s : Symbol) : Tidy (writeName g s) :=
  (tidy_nameOf g s).bind tidy_write

@[simp] theorem yields_writeName {s : Symbol} {n : Nat} {w : List Char} :
    Yields (writeName g s) n () w ↔ ∃ name, g.names.resolve s = some name ∧ w = name.toList := by
  rw [writeName, yields_bind]
  constructor
  · rintro ⟨name, w₁, w₂, h₁, h₂, rfl⟩
    obtain ⟨hname, rfl⟩ := yields_nameOf.1 h₁
    exact ⟨name, hname, yields_write.1 h₂⟩
  · rintro ⟨name, hname, rfl⟩
    exact ⟨name, [], _, yields_nameOf.2 ⟨hname, rfl⟩, yields_write.2 rfl, rfl⟩

theorem tidy_emitLines (g : Setting) : ∀ lines, Tidy (emitLines g lines)
  | [] => tidy_pure ()
  | [line] => tidy_write line
  | line :: line' :: lines =>
    (tidy_write line).bind fun _ => tidy_newline.bind fun _ =>
      (tidy_indent _).bind fun _ => tidy_emitLines g (line' :: lines)

instance tidy_emitAtom (g : Setting) (a : Atom) : Tidy (emitAtom g a) := by
  cases a with
  | raw code =>
    rw [emitAtom]
    split
    · exact tidy_emitLines g _
    · exact tidy_refuse _
  | _ => rw [emitAtom]; infer_instance

instance tidy_emitBetween {opening closing : String} {inner : Emit Unit} [Tidy inner] :
    Tidy (emitBetween opening closing inner) := by
  rw [emitBetween]
  infer_instance

instance tidy_emitPrefixed {operator : String} {operand : Emit Unit} [Tidy operand] :
    Tidy (emitPrefixed operator operand) := by
  rw [emitPrefixed]
  infer_instance

instance tidy_emitUnary {operator : Operator UnaryKind} {operand : Emit Unit} [h : Tidy operand] :
    Tidy (emitUnary operator operand) := by
  cases operator with
  | custom text => exact tidy_emitPrefixed
  | standard kind =>
    cases kind with
    | plus => exact h
    | addressOf => exact tidy_refuse _
    | minus | not => exact tidy_emitPrefixed

instance tidy_emitInForm {form : BinaryForm} {left right : Emit Unit} [Tidy left] [Tidy right] :
    Tidy (emitInForm form left right) := by
  rw [emitInForm]
  infer_instance

instance tidy_emitBinary {operator : Operator BinaryKind} {left right : Emit Unit} [Tidy left]
    [Tidy right] : Tidy (emitBinary g operator left right) := by
  rw [emitBinary]
  cases binaryForm g.config.target operator <;> split <;> infer_instance

def emitCall : Option (Emit Unit) → Emit Unit
  | some arguments => emitBetween "(" ")" arguments
  | none => pure ()

theorem tidy_emitCall {arguments : Option (Emit Unit)} (h : ∀ a ∈ arguments, Tidy a) :
    Tidy (emitCall arguments) := by
  cases arguments with
  | none => exact tidy_pure ()
  | some arguments =>
    have := h arguments rfl
    exact tidy_emitBetween

/-- What follows the name of a member in `emitMember`: the call, around the site if it is guarded. -/
def emitAccess (site : Option Site) (selection : Selection) (arguments : Option (Emit Unit))
    (optional : Bool) (member : String) : Emit Unit :=
  match site with
  | none => do
    write member
    emitCall arguments
  | some site =>
    let access := (if arguments.isSome && !site.isType then ":" else ".") ++ member
    if selection.nilSafe || optional then do
      write ("(function(t) if " ++ guardText selection.nilSafe optional member
        ++ " then return nil end return t")
      write access
      emitCall arguments
      write " end)("
      site.emit
      write ")"
    else do
      site.emit
      write access
      emitCall arguments

theorem emitMember_eq (g : Setting) (site : Option Site) (selection : Selection)
    (arguments : Option (Emit Unit)) (optional : Bool) :
    emitMember g site selection arguments optional =
      nameOf g selection.name >>= emitAccess site selection arguments optional := by
  cases arguments <;> rfl

theorem tidy_emitAccess {site : Option Site} {selection : Selection} {arguments : Option (Emit Unit)}
    {optional : Bool} (hsite : ∀ s ∈ site, Tidy s.emit) (harguments : ∀ a ∈ arguments, Tidy a)
    (member : String) : Tidy (emitAccess site selection arguments optional member) := by
  have hcall := tidy_emitCall harguments
  cases site with
  | none =>
    rw [emitAccess]
    infer_instance
  | some site =>
    have hemit : Tidy site.emit := hsite _ rfl
    rw [emitAccess]
    infer_instance

theorem tidy_emitMember {site : Option Site} {selection : Selection} {arguments : Option (Emit Unit)}
    {optional : Bool} (hsite : ∀ s ∈ site, Tidy s.emit) (harguments : ∀ a ∈ arguments, Tidy a) :
    Tidy (emitMember g site selection arguments optional) := by
  rw [emitMember_eq]
  exact (tidy_nameOf g _).bind (tidy_emitAccess hsite harguments)

instance tidy_checkArgument (g : Setting) (name : Option Symbol) (passing : Passing) :
    Tidy (checkArgument g name passing) := by
  cases passing with
  | byRef | out => exact tidy_refuse _
  | byValue =>
    cases name with
    | none => exact tidy_pure ()
    | some name =>
      unfold checkArgument
      cases g.config.namedArguments with
      | positional => exact tidy_pure ()
      | reject => exact (tidy_nameOf g name).bind fun _ => tidy_refuse _

instance tidy_emitParameterNames (g : Setting) :
    ∀ isFirst parameters, Tidy (emitParameterNames g isFirst parameters)
  | _, [] => tidy_pure ()
  | isFirst, p :: parameters => by
    have := tidy_emitParameterNames g false parameters
    rw [emitParameterNames]
    infer_instance

instance tidy_emitExpressionLine {expression : Emit Unit} [Tidy expression] :
    Tidy (emitExpressionLine g expression) := by
  rw [emitExpressionLine]
  infer_instance

instance tidy_emitLine {line : Emit Unit} [Tidy line] : Tidy (emitLine g line) := by
  rw [emitLine]
  infer_instance

instance tidy_emitLocalName (g : Setting) (name : Symbol) (constant : Bool) :
    Tidy (emitLocalName g name constant) := by
  rw [emitLocalName]
  split <;> infer_instance

end Forms

/-! ## Trees -/

mutual

/-- Writing an expression only adds text, and what it adds depends only on the depth. -/
theorem tidy_emitExpr (g : Setting) : ∀ e : Expr, Tidy (emitExpr g e)
  | .shared s => tidy_emitAtom g s.atom
  | .atom a => tidy_emitAtom g a
  | .array elements _ => by
    have := tidy_emitExprs g true elements
    exact tidy_emitBetween
  | .dictionary entries => by
    have := tidy_emitEntries g true entries
    exact tidy_emitBetween
  | .tuple elements => by
    have := tidy_emitExprs g true elements
    exact tidy_emitBetween
  | .unary _ operand => by
    have := tidy_emitExpr g operand
    exact tidy_emitUnary
  | .binary _ left right => by
    have := tidy_emitExpr g left
    have := tidy_emitExpr g right
    exact tidy_emitBinary
  | .field site _ => tidy_emitMember (tidy_emitSite? g site) (by simp)
  | .call site _ arguments _ =>
    tidy_emitMember (tidy_emitSite? g site) (by
      rintro _ ⟨⟩
      exact tidy_emitArguments g true arguments)
  | .property site selection indices => by
    have : Tidy (emitMember g (emitSite? g site) selection none false) :=
      tidy_emitMember (tidy_emitSite? g site) (by simp)
    have := tidy_emitPropertyIndices g indices
    rw [emitExpr]
    infer_instance
  | .construct type constructor arguments initializers => by
    have := tidy_emitArguments g true arguments
    have := tidy_emitInitializers g initializers
    rw [emitExpr]
    cases constructor <;> cases initializers <;> infer_instance
  | .allocate _ _ _ _ => by
    rw [emitExpr]
    infer_instance
  | .element array indices => by
    have := tidy_emitExpr g array
    have := tidy_emitIndices g indices
    rw [emitExpr]
    infer_instance
  | .wrapped .parentheses inner => by
    have := tidy_emitExpr g inner
    exact tidy_emitBetween
  | .wrapped .typeOf inner => by
    have := tidy_emitExpr g inner
    exact tidy_emitBetween
  | .wrapped .sizeOf _ => tidy_refuse _
  | .wrapped .dereference _ => tidy_refuse _
  | .conditional condition consequence none => by
    have := tidy_emitExpr g condition
    have := tidy_emitExpr g consequence
    rw [emitExpr]
    infer_instance
  | .conditional condition consequence (some alternative) => by
    have := tidy_emitExpr g condition
    have := tidy_emitExpr g consequence
    have := tidy_emitExpr g alternative
    rw [emitExpr]
    simp only
    infer_instance
  | .cast value _ _ _ => tidy_emitExpr g value
  | .assigned value _ => by
    have := tidy_emitExpr g value
    exact tidy_emitBetween
  | .method _ parameters _ body locals => by
    have := tidy_emitDefaultValues g parameters
    have := tidy_emitLocals? g locals
    have := tidy_emitStatements g body
    rw [emitExpr]
    infer_instance
  | .anonymousType _ _ => tidy_refuse _

theorem tidy_emitSite? (g : Setting) : ∀ site : Option Expr, ∀ s ∈ emitSite? g site, Tidy s.emit
  | none => by simp [emitSite?]
  | some site => by
    rintro _ ⟨⟩
    exact tidy_emitExpr g site

theorem tidy_emitExprs (g : Setting) : ∀ isFirst es, Tidy (emitExprs g isFirst es)
  | _, [] => tidy_pure ()
  | isFirst, e :: es => by
    have := tidy_emitExpr g e
    have := tidy_emitExprs g false es
    rw [emitExprs]
    infer_instance

theorem tidy_emitEntries (g : Setting) : ∀ isFirst entries, Tidy (emitEntries g isFirst entries)
  | _, [] => tidy_pure ()
  | isFirst, (key, value) :: entries => by
    have := tidy_emitExpr g key
    have := tidy_emitExpr g value
    have := tidy_emitEntries g false entries
    rw [emitEntries]
    infer_instance

theorem tidy_emitArguments (g : Setting) :
    ∀ isFirst arguments, Tidy (emitArguments g isFirst arguments)
  | _, [] => tidy_pure ()
  | isFirst, ⟨name, value, passing⟩ :: arguments => by
    have := tidy_emitExpr g value
    have := tidy_emitArguments g false arguments
    rw [emitArguments]
    infer_instance

theorem tidy_emitPropertyIndices (g : Setting) :
    ∀ indices, Tidy (emitPropertyIndices g indices)
  | [] => tidy_pure ()
  | ⟨name, value, passing⟩ :: indices => by
    have := tidy_emitExpr g value
    have := tidy_emitPropertyIndices g indices
    rw [emitPropertyIndices]
    infer_instance

theorem tidy_emitIndices (g : Setting) : ∀ indices, Tidy (emitIndices g indices)
  | [] => tidy_pure ()
  | index :: indices => by
    have := tidy_emitExpr g index
    have := tidy_emitIndices g indices
    rw [emitIndices]
    infer_instance

theorem tidy_emitInitializers (g : Setting) : ∀ initializers, Tidy (emitInitializers g initializers)
  | [] => tidy_pure ()
  | ⟨none, _, _⟩ :: _ => tidy_refuse _
  | ⟨some name, value, _⟩ :: initializers => by
    have := tidy_emitExpr g value
    have := tidy_emitInitializers g initializers
    rw [emitInitializers]
    infer_instance

theorem tidy_emitDefaultValues (g : Setting) :
    ∀ parameters, Tidy (emitDefaultValues g parameters)
  | [] => tidy_pure ()
  | ⟨_, _, _, none⟩ :: parameters => tidy_emitDefaultValues g parameters
  | ⟨name, _, _, some value⟩ :: parameters => by
    have := tidy_emitExpr g value
    have := tidy_emitDefaultValues g parameters
    rw [emitDefaultValues]
    infer_instance

theorem tidy_emitLocal (g : Setting) : ∀ declared, Tidy (emitLocal g declared)
  | ⟨name, _, none, constant⟩ => tidy_emitLocalName g name constant
  | ⟨name, _, some value, constant⟩ => by
    have := tidy_emitExpr g value
    rw [emitLocal]
    infer_instance

theorem tidy_emitLocals (g : Setting) : ∀ locals, Tidy (emitLocals g locals)
  | [] => tidy_pure ()
  | declared :: locals => by
    have := tidy_emitLocal g declared
    have := tidy_emitLocals g locals
    rw [emitLocals]
    infer_instance

theorem tidy_emitLocals? (g : Setting) : ∀ locals, Tidy (emitLocals? g locals)
  | none => tidy_pure ()
  | some locals => tidy_emitLocals g locals

theorem tidy_emitStatement (g : Setting) : ∀ s : Statement, Tidy (emitStatement g s)
  | .expression value => by
    have := tidy_emitExpr g value
    rw [emitStatement]
    split <;> infer_instance
  | .declaration declared => by
    have := tidy_emitLocal g declared
    exact tidy_emitLine
  | .assignment target value => by
    have := tidy_emitExpr g target
    have := tidy_emitExpr g value
    rw [emitStatement]
    infer_instance
  | .result none => tidy_emitLine
  | .result (some value) => by
    have := tidy_emitExpr g value
    rw [emitStatement]
    infer_instance
  | .block body => by
    have := tidy_emitStatements g body
    rw [emitStatement]
    infer_instance

theorem tidy_emitStatements (g : Setting) : ∀ statements, Tidy (emitStatements g statements)
  | [] => tidy_pure ()
  | s :: statements => by
    have := tidy_emitStatement g s
    have := tidy_emitStatements g statements
    rw [emitStatements]
    infer_instance

end

attribute [instance] tidy_emitExpr tidy_emitExprs tidy_emitEntries tidy_emitArguments
  tidy_emitPropertyIndices tidy_emitIndices tidy_emitInitializers tidy_emitDefaultValues
  tidy_emitLocal tidy_emitLocals tidy_emitLocals? tidy_emitStatement tidy_emitStatements

end CodeTree.Lua
