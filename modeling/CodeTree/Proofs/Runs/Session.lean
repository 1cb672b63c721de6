import CodeTree.Build.Session
import CodeTree.Proofs.Names.Interning

/-! # A session at work

A session answers one operation after another. Most of them intern a text and put its symbol into what
they build, and the others only read. Whatever the order, the interner of a session knows the texts it was
given, each at the place of its first appearance, and what a symbol stands for never changes. All of this
follows from the laws of an interner: sessions over two lawful ones answer alike, so what is seen in the
list of names of a `NameTable` holds over any.

* `Operation`, `Outcome`: what a session can be asked for and what it answers.
* `Operation.run`: one operation. `after` and `outcomes`: one after another, from an empty session.
* `serve_agrees`: sessions over two lawful interners.
* `Issued`: the text an operation was given and the symbol that it put into its answer.
* `issued_symbols`: which symbols a session hands out and what they stand for. -/

namespace CodeTree.Session

set_option autoImplicit false

/-- What a session can be asked for. Interning in its table directly is `intern`, too. -/
inductive Operation
  | intern (text : String)
  | identifier (text : String)
  | localVariable (text : String)
  | selector (text : String)
  | typeReference (text : String)
  | enumValue (type : TypeReference) (text : String)
  | fieldAccess (site : Option Expr) (text : String)
  | methodCall (site : Option Expr) (text : String)
  | propertyAccess (site : Option Expr) (text : String)
  | namedArgument (value : Expr) (text : String)
  | parameter (text : String) (type : Option TypeReference)
  | find? (text : String)
  | resolve (s : Symbol)
  | name (s : Symbol)
  | size

/-- What a session answers. -/
inductive Outcome
  | symbol (s : Symbol)
  | expression (e : Expr)
  | localVariable (read : LocalVariable)
  | typeReference (type : TypeReference)
  | enumValue (value : EnumValue)
  | fieldAccess (access : FieldAccess)
  | methodCall (call : MethodCall)
  | propertyAccess (access : PropertyAccess)
  | argument (a : Argument)
  | parameter (p : Parameter)
  | found (s : Option Symbol)
  | resolved (text : Option String)
  | named (answer : Except TreeError String)
  | size (n : Nat)

variable {τ : Type} [Interner τ]

/-- Serves one operation. -/
def Operation.run : Operation → SessionOver τ Outcome
  | intern text => return .symbol (← Session.intern text)
  | identifier text => return .expression (← Session.identifier text)
  | localVariable text => return .localVariable (← Session.localVariable text)
  | selector text => return .expression (← Session.selector text)
  | typeReference text => return .typeReference (← Session.typeReference text)
  | enumValue type text => return .enumValue (← Session.enumValue type text)
  | fieldAccess site text => return .fieldAccess (← Session.fieldAccess site text)
  | methodCall site text => return .methodCall (← Session.methodCall site text)
  | propertyAccess site text => return .propertyAccess (← Session.propertyAccess site text)
  | namedArgument value text => return .argument (← Session.namedArgument value text)
  | parameter text type => return .parameter (← Session.parameter text type)
  | find? text => return .found (← Session.find? text)
  | resolve s => return .resolved (← Session.resolve s)
  | name s => return .named (← Session.name s)
  | size => return .size (← Session.size)

/-- The text that an operation interns. The operations without one only read. -/
def Operation.text? : Operation → Option String
  | intern text | identifier text | localVariable text | selector text | typeReference text
  | enumValue _ text | fieldAccess _ text | methodCall _ text | propertyAccess _ text
  | namedArgument _ text | parameter text _ => some text
  | find? _ | resolve _ | name _ | size => none

/-- The symbol that stands in what was built under the name that was given. -/
def Outcome.symbol? : Outcome → Option Symbol
  | symbol s => some s
  | expression (.atom (.identifier name)) => some name
  | expression (.atom (.selector name)) => some name
  | expression _ => none
  | localVariable read => some read.name
  | typeReference type => some type.name
  | enumValue value => some value.value
  | fieldAccess r => some r.access.selection.name
  | methodCall r => some r.access.selection.name
  | propertyAccess r => some r.access.selection.name
  | argument a => a.name
  | parameter p => some p.name
  | found _ | resolved _ | named _ | size _ => none

/-! ## One operation -/

/-- An operation with a text interns it and builds with its symbol. -/
theorem run_of_text {operation : Operation} {text : String} (h : operation.text? = some text)
    (names : τ) :
    (operation.run names).2 = (Interner.intern names text).2 ∧
      (operation.run names).1.symbol? = some (Interner.intern names text).1 := by
  cases operation <;> cases h <;> exact ⟨rfl, rfl⟩

/-- An operation without a text leaves the names alone and hands out no new symbol. -/
theorem run_of_no_text {operation : Operation} (h : operation.text? = none) (names : τ) :
    (operation.run names).2 = names ∧ (operation.run names).1.symbol? = none := by
  cases operation <;> cases h <;> exact ⟨rfl, rfl⟩

/-! ## One operation after another -/

/-- What an empty session answers to operations, and the names it has in the end. -/
def serve (τ : Type) [Interner τ] (operations : List Operation) : List Outcome × τ :=
  (operations.mapM Operation.run).run Interner.empty

def outcomes (τ : Type) [Interner τ] (operations : List Operation) : List Outcome :=
  (serve τ operations).1

/-- The names after some operations. -/
def after (τ : Type) [Interner τ] (operations : List Operation) : τ := (serve τ operations).2

/-- The operation at a place was given the text, and its answer has the symbol. -/
def Issued (τ : Type) [Interner τ] (operations : List Operation) (i : Nat) (text : String) (s : Symbol) :
    Prop :=
  operations[i]?.bind Operation.text? = some text ∧
    (outcomes τ operations)[i]?.bind Outcome.symbol? = some s

theorem serve_concat (operations : List Operation) (operation : Operation) :
    serve τ (operations ++ [operation]) =
      (outcomes τ operations ++ [(operation.run (after τ operations)).1],
        (operation.run (after τ operations)).2) := by
  rw [serve, List.mapM_append, List.mapM_cons, List.mapM_nil]
  rfl

theorem outcomes_concat (operations : List Operation) (operation : Operation) :
    outcomes τ (operations ++ [operation]) =
      outcomes τ operations ++ [(operation.run (after τ operations)).1] :=
  congrArg Prod.fst (serve_concat operations operation)

theorem after_concat (operations : List Operation) (operation : Operation) :
    after τ (operations ++ [operation]) = (operation.run (after τ operations)).2 :=
  congrArg Prod.snd (serve_concat operations operation)

theorem length_outcomes (operations : List Operation) :
    (outcomes τ operations).length = operations.length := by
  induction operations using List.reverseRecOn with
  | nil => rfl
  | append_singleton operations operation ih =>
    rw [outcomes_concat, List.length_append, List.length_append, ih]
    rfl

/-- Each operation meets the names that the ones before it have left. -/
theorem outcomes_getElem? (operations : List Operation) (i : Nat) :
    (outcomes τ operations)[i]? =
      operations[i]?.map fun operation => (operation.run (after τ (operations.take i))).1 := by
  induction operations using List.reverseRecOn with
  | nil => rfl
  | append_singleton operations operation ih =>
    rw [outcomes_concat]
    have hlength := length_outcomes (τ := τ) operations
    rcases Nat.lt_trichotomy i operations.length with hlt | rfl | hgt
    · rw [List.getElem?_append_left (hlength.symm ▸ hlt), List.getElem?_append_left hlt,
        List.take_append_of_le_length (Nat.le_of_lt hlt), ih]
    · rw [← hlength, List.getElem?_concat_length, hlength, List.getElem?_concat_length, List.take_left]
      rfl
    · have hnone : operations.length + 1 ≤ i := hgt
      rw [List.getElem?_eq_none (by simpa [hlength] using hnone),
        List.getElem?_eq_none (by simpa using hnone)]
      rfl

/-- What an operation with a text is issued, and the names that it leaves. -/
theorem step_of_text {operations : List Operation} {i : Nat} {text : String}
    (h : operations[i]?.bind Operation.text? = some text) :
    (outcomes τ operations)[i]?.bind Outcome.symbol? =
        some (Interner.intern (after τ (operations.take i)) text).1 ∧
      after τ (operations.take (i + 1)) = (Interner.intern (after τ (operations.take i)) text).2 := by
  obtain ⟨operation, hoperation, htext⟩ := Option.bind_eq_some_iff.1 h
  obtain ⟨hafter, hsymbol⟩ := run_of_text htext (after τ (operations.take i))
  rw [outcomes_getElem?, hoperation, List.take_add_one, hoperation]
  exact ⟨hsymbol, (after_concat _ _).trans hafter⟩

/-- The symbols that were handed out. -/
def issuedSymbols (τ : Type) [Interner τ] (operations : List Operation) : List Symbol :=
  (outcomes τ operations).filterMap Outcome.symbol?

theorem name_eq_error_iff (names : τ) (s : Symbol) (error : TreeError) :
    (name s names).1 = .error error ↔ error = .unknownSymbol s ∧ Interner.resolve names s = none := by
  show s.orUnknown (Interner.resolve names s) = .error error ↔ _
  cases Interner.resolve names s <;> simp [Symbol.orUnknown, eq_comm]

theorem name_eq_ok_iff (names : τ) (s : Symbol) (text : String) :
    (name s names).1 = .ok text ↔ Interner.resolve names s = some text := by
  show s.orUnknown (Interner.resolve names s) = .ok text ↔ _
  cases Interner.resolve names s <;> simp [Symbol.orUnknown]

/-! ## The same over every lawful interner -/

section Agreement

variable {υ : Type} [Interner υ] [LawfulInterner τ] [LawfulInterner υ]

theorem run_of_agrees {names : τ} {others : υ} (h : Interner.Agrees names others)
    (operation : Operation) :
    (operation.run names).1 = (operation.run others).1 ∧
      Interner.Agrees (operation.run names).2 (operation.run others).2 := by
  constructor
  · cases operation with
    | intern text => exact congrArg Outcome.symbol (h.symbol text)
    | identifier text => exact congrArg (fun s => Outcome.expression (.identifier s)) (h.symbol text)
    | localVariable text => exact congrArg (fun s => Outcome.localVariable (.named s)) (h.symbol text)
    | selector text => exact congrArg (fun s => Outcome.expression (.selector s)) (h.symbol text)
    | typeReference text => exact congrArg (fun s => Outcome.typeReference (.named s)) (h.symbol text)
    | enumValue type text => exact congrArg (fun s => Outcome.enumValue ⟨type, s⟩) (h.symbol text)
    | fieldAccess site text => exact congrArg (fun s => Outcome.fieldAccess (.named site s)) (h.symbol text)
    | methodCall site text => exact congrArg (fun s => Outcome.methodCall (.named site s)) (h.symbol text)
    | propertyAccess site text =>
      exact congrArg (fun s => Outcome.propertyAccess (.named site s)) (h.symbol text)
    | namedArgument value text => exact congrArg (fun s => Outcome.argument (.named value s)) (h.symbol text)
    | parameter text type => exact congrArg (fun s => Outcome.parameter (.named s type)) (h.symbol text)
    | find? text => exact congrArg Outcome.found (h.find? text)
    | resolve s => exact congrArg Outcome.resolved (h.resolve s)
    | name s => exact congrArg (fun text => Outcome.named (s.orUnknown text)) (h.resolve s)
    | size => exact congrArg Outcome.size h.size
  · cases htext : operation.text? with
    | some text =>
      rw [(run_of_text htext names).1, (run_of_text htext others).1]
      exact h.intern text
    | none =>
      rw [(run_of_no_text htext names).1, (run_of_no_text htext others).1]
      exact h

/-- Sessions over two lawful interners give the same answers. -/
theorem serve_agrees (operations : List Operation) :
    outcomes τ operations = outcomes υ operations ∧
      Interner.Agrees (after τ operations) (after υ operations) := by
  induction operations using List.reverseRecOn with
  | nil => exact ⟨rfl, Interner.agrees_empty⟩
  | append_singleton operations operation ih =>
    obtain ⟨houtcome, hnames⟩ := run_of_agrees ih.2 operation
    rw [outcomes_concat, outcomes_concat, after_concat, after_concat, ih.1, houtcome]
    exact ⟨rfl, hnames⟩

end Agreement

/-! ## Over a name table -/

/-- After some operations a name table has the texts that they interned. -/
theorem after_eq_ofList (operations : List Operation) :
    after NameTable operations = .ofList (operations.filterMap Operation.text?) := by
  induction operations using List.reverseRecOn with
  | nil => rfl
  | append_singleton operations operation ih =>
    rw [after_concat, List.filterMap_append]
    cases htext : operation.text? with
    | none =>
      rw [(run_of_no_text htext _).1, List.filterMap_cons_none htext, List.filterMap_nil,
        List.append_nil]
      exact ih
    | some text =>
      rw [(run_of_text htext _).1, List.filterMap_cons_some htext, List.filterMap_nil,
        NameTable.ofList_append, ih]
      rfl

theorem nodup_after (operations : List Operation) : (after NameTable operations).names.Nodup :=
  after_eq_ofList operations ▸ NameTable.nodup_ofList _

theorem after_append (operations more : List Operation) :
    after NameTable (operations ++ more) =
      (after NameTable operations).internAll (more.filterMap Operation.text?) := by
  rw [after_eq_ofList, after_eq_ofList, List.filterMap_append, NameTable.ofList_append]

/-- Each symbol that is new is the next one. -/
theorem eraseDups_issuedSymbols (operations : List Operation) :
    (issuedSymbols NameTable operations).eraseDups = (after NameTable operations).symbols := by
  induction operations using List.reverseRecOn with
  | nil => rfl
  | append_singleton operations operation ih =>
    rw [issuedSymbols, outcomes_concat, List.filterMap_append, after_concat]
    cases htext : operation.text? with
    | none =>
      obtain ⟨hafter, hsymbol⟩ := run_of_no_text htext (after NameTable operations)
      rw [List.filterMap_cons_none hsymbol, List.filterMap_nil, List.append_nil, hafter]
      exact ih
    | some text =>
      obtain ⟨hafter, hsymbol⟩ := run_of_text htext (after NameTable operations)
      have hstep := NameTable.intern_symbols (after NameTable operations) text
      rw [List.filterMap_cons_some hsymbol, List.filterMap_nil, NameTable.eraseDups_concat, hafter]
      refine Eq.trans ?_ hstep.symm
      rw [← ih]
      simp only [List.mem_eraseDups, issuedSymbols]
      rfl

/-- A symbol that was issued stands for its text from then on. -/
theorem Issued.resolve_take {operations : List Operation} {i : Nat} {text : String} {s : Symbol}
    (h : Issued NameTable operations i text s) {k : Nat} (hk : i < k) :
    (after NameTable (operations.take k)).resolve s = some text := by
  obtain ⟨hissued, hafter⟩ := step_of_text (τ := NameTable) h.1
  have hs : ((after NameTable (operations.take i)).intern text).1 = s :=
    Option.some.inj (hissued.symm.trans h.2)
  have hnow : (after NameTable (operations.take (i + 1))).resolve s = some text := by
    rw [hafter, ← hs]
    exact NameTable.resolve_intern _ text
  have hsplit : operations.take k =
      operations.take (i + 1) ++ (operations.drop (i + 1)).take (k - (i + 1)) := by
    rw [← List.take_add, Nat.add_sub_cancel' hk]
  rw [hsplit, after_append]
  exact NameTable.resolve_internAll hnow _

/-- What was issued has a name in the end. -/
theorem Issued.resolve_after {operations : List Operation} {i : Nat} {text : String} {s : Symbol}
    (h : Issued NameTable operations i text s) :
    (after NameTable operations).resolve s = some text := by
  have hlt : i < operations.length := by
    obtain ⟨operation, hoperation, -⟩ := Option.bind_eq_some_iff.1 h.1
    exact (List.getElem?_eq_some_iff.1 hoperation).1
  have hend := h.resolve_take hlt
  rwa [List.take_length] at hend

/-- Two issued symbols are the same if and only if their texts are. -/
theorem Issued.eq_iff {operations : List Operation} {i j : Nat} {text text' : String} {s s' : Symbol}
    (h : Issued NameTable operations i text s) (h' : Issued NameTable operations j text' s') :
    s = s' ↔ text = text' := by
  constructor
  · rintro rfl
    exact Option.some.inj (h.resolve_after.symm.trans h'.resolve_after)
  · rintro rfl
    exact NameTable.eq_of_resolve (nodup_after operations) h.resolve_after h'.resolve_after

/-! ## The symbols that are handed out -/

/-- Over any lawful interner a session hands out the symbols `0, 1, 2, …` in the order in which its texts
are first given, one for each text, and no two texts share one. Each symbol stands for its text in every
later state, whatever built the node that has it. Lookups, names and the size agree with this, and reading
changes nothing. -/
theorem issued_symbols (τ : Type) [Interner τ] [LawfulInterner τ] (operations : List Operation) :
    (issuedSymbols τ operations).eraseDups =
      (List.range (size (after τ operations)).1).map Symbol.mk ∧
    (∀ s, (resolve s (after τ operations)).1 =
      (operations.filterMap Operation.text?).eraseDups[s.index]?) ∧
    (∀ i text, operations[i]?.bind Operation.text? = some text → ∃ s, Issued τ operations i text s) ∧
    (∀ i j text text' s s', Issued τ operations i text s → Issued τ operations j text' s' →
      (s = s' ↔ text = text')) ∧
    (∀ i text s, Issued τ operations i text s →
      ∀ k, i < k → (resolve s (after τ (operations.take k))).1 = some text) ∧
    (∀ s error, (name s (after τ operations)).1 = .error error ↔
      error = .unknownSymbol s ∧ (resolve s (after τ operations)).1 = none) ∧
    (∀ s text, (name s (after τ operations)).1 = .ok text ↔
      (resolve s (after τ operations)).1 = some text) ∧
    (∀ s text, (find? text (after τ operations)).1 = some s ↔
      (resolve s (after τ operations)).1 = some text) ∧
    (∀ operation : Operation, operation.text? = none →
      (operation.run (after τ operations)).2 = after τ operations) := by
  have hagrees (operations : List Operation) :
      Interner.Agrees (after τ operations) (after NameTable operations) :=
    (serve_agrees operations).2
  have houtcomes : outcomes τ operations = outcomes NameTable operations :=
    (serve_agrees operations).1
  have hissued {i : Nat} {text : String} {s : Symbol} (h : Issued τ operations i text s) :
      Issued NameTable operations i text s := ⟨h.1, houtcomes ▸ h.2⟩
  refine ⟨?_, fun s => ?_, fun i text htext => ⟨_, htext, (step_of_text htext).1⟩,
    fun _ _ _ _ _ _ h h' => (hissued h).eq_iff (hissued h'),
    fun _ _ s h k hk => ((hagrees _).resolve s).trans ((hissued h).resolve_take hk),
    name_eq_error_iff _, name_eq_ok_iff _, fun s text => ?_,
    fun operation h => (run_of_no_text h _).1⟩
  · show (issuedSymbols τ operations).eraseDups =
      (List.range (Interner.size (after τ operations))).map Symbol.mk
    rw [issuedSymbols, houtcomes, (hagrees operations).size]
    exact eraseDups_issuedSymbols operations
  · refine ((hagrees operations).resolve s).trans ?_
    show (after NameTable operations).names[s.index]? = _
    rw [after_eq_ofList, NameTable.names_ofList]
  · show Interner.find? (after τ operations) text = some s ↔
      Interner.resolve (after τ operations) s = some text
    rw [(hagrees operations).find?, (hagrees operations).resolve]
    exact NameTable.find?_eq_some_iff (nodup_after operations)

/-- A field, a method that is called on it and the field again, with a lookup in between. -/
theorem issued_symbols_of_member_access :
    let operations : List Operation :=
      [.fieldAccess none "x", .size, .methodCall (some (.identifier ⟨0⟩)) "f", .identifier "x"]
    (issuedSymbols NameTable operations).eraseDups = [⟨0⟩, ⟨1⟩] ∧
      (∀ s, Issued NameTable operations 3 "x" s → s = ⟨0⟩) ∧
      (resolve ⟨0⟩ (after NameTable (operations.take 2))).1 = some "x" ∧
      (resolve ⟨0⟩ (after NameTable operations)).1 = some "x" ∧
      (resolve ⟨1⟩ (after NameTable operations)).1 = some "f" ∧
      (name ⟨2⟩ (after NameTable operations)).1 = .error (.unknownSymbol ⟨2⟩) ∧
      (Operation.size.run (after NameTable operations)).2 = after NameTable operations := by
  intro operations
  obtain ⟨hnew, htexts, -, hsame, hresolve, herror, -, -, hread⟩ := issued_symbols NameTable operations
  have hfirst : Issued NameTable operations 0 "x" ⟨0⟩ := ⟨rfl, rfl⟩
  refine ⟨hnew, fun s hs => ?_, hresolve 0 "x" _ hfirst 2 (by decide),
    hresolve 0 "x" _ hfirst 4 (by decide), htexts ⟨1⟩, (herror _ _).2 ⟨rfl, rfl⟩, hread _ rfl⟩
  exact (hsame 3 0 "x" "x" s ⟨0⟩ hs hfirst).2 rfl

end CodeTree.Session
