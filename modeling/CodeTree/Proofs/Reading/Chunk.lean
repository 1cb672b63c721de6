import CodeTree.Proofs.Acceptance.Representable
import CodeTree.Proofs.Reading.Accepted
import CodeTree.Proofs.Reading.Roundtrip

/-! # Reading emitted statements back

Lua reads no line breaks, and a return takes as its results whatever expressions stand behind it. So the
grammar finds no block in which a statement stands behind a return, and the text of statements is read as
these statements exactly if in each of their blocks only the last one returns. Writing does not ask for
that.

* `readChunk`: the statements that a whole text is.
* `Derives.orderly`: what the grammar reads is orderly.
* `lex_generateStatements`: the text of accepted statements has the tokens of their syntax trees.
* `readChunk_generateStatements_iff`: the texts that are read back. -/

namespace CodeTree.Lua

open List

set_option autoImplicit false

/-- The statements that a whole text is. -/
def readChunk (text : String) : Option (List (Stat String)) :=
  match lex text.toList |>.parseBlock with
  | some (statements, []) => some statements
  | _ => none

/-! ## What the grammar finds -/

/-- What a production finds is orderly, and a statement among others is no return. -/
def Production.Orderly : (p : Production) → p.Result → Prop
  | exp _, x | operand, x | simple, x | primary, x => x.Orderly
  | tail _ x, y | suffixes x, y => x.Orderly → y.Orderly
  | fields, fs => orderlyFields fs
  | field, f => f.Orderly
  | arguments, xs | more, xs | results, xs => orderlyExps xs
  | block, statements => orderlyStats statements
  | statement, s => s.Orderly ∧ s.isResult = false

theorem orderly_of_atom? {t : Token} {x : Exp String} (h : atom? t = some x) : x.Orderly := by
  unfold atom? at h
  split at h <;> cases h <;> trivial

/-- The grammar reads no block in which something stands behind a return. -/
theorem Derives.orderly {p : Production} {ts us : List Token} {r : p.Result} (h : Derives p ts r us) :
    p.Orderly r := by
  induction h with
  | exp _ _ ihx ihy => exact ihy ihx
  | unary _ _ ihx | simple _ ihx | primary _ ihx => exact ihx
  | binary _ _ _ _ ihy ihz => exact fun hx => ihz ⟨hx, ihy⟩
  | noBinary | noSuffix => exact id
  | atom ht => exact orderly_of_atom? ht
  | table _ ihfs => exact ihfs
  | function _ _ ihbody => exact ihbody
  | name _ ihx => exact ihx trivial
  | paren _ _ ihx ihy => exact ihy ihx
  | member _ ihy => exact ihy
  | index _ _ ihkey ihy => exact fun hx => ihy ⟨hx, ihkey⟩
  | invoke _ _ ihxs ihy | call _ _ ihxs ihy => exact fun hx => ihy ⟨hx, ihxs⟩
  | callString _ ihy => exact fun hx => ihy ⟨hx, trivial, trivial⟩
  | callTable _ _ ihfs ihy => exact fun hx => ihy ⟨hx, ihfs, trivial⟩
  | noArguments | noMore | noFields | blockEnd | noResults => trivial
  | arguments _ _ ihx ihxs | more _ _ ihx ihxs | results _ _ ihx ihxs => exact ⟨ihx, ihxs⟩
  | fields _ _ _ ihf ihfs => exact ⟨ihf, ihfs⟩
  | lastField _ ihf => exact ⟨ihf, trivial⟩
  | keyed _ _ ihkey ihvalue => exact ⟨ihkey, ihvalue⟩
  | item _ ihvalue => exact ihvalue
  | result _ _ ihvalues => exact ⟨ihvalues, fun _ => rfl, trivial⟩
  | block _ _ ihs ihstatements =>
    -- What stands before others is no return.
    exact ⟨ihs.1, fun hresult => absurd hresult (by simp [ihs.2]), ihstatements⟩
  | empty => exact ⟨trivial, rfl⟩
  | nested _ ihbody => exact ⟨ihbody, rfl⟩
  | conditional _ _ ihcondition ihconsequence => exact ⟨⟨ihcondition, ihconsequence, trivial⟩, rfl⟩
  | alternative _ _ _ ihcondition ihconsequence ihalternative =>
    exact ⟨⟨ihcondition, ihconsequence, ihalternative⟩, rfl⟩
  | declare => exact ⟨trivial, rfl⟩
  | declareValues _ _ _ ihx ihxs => exact ⟨⟨ihx, ihxs⟩, rfl⟩
  | assign _ _ _ ihtarget ihvalue => exact ⟨⟨ihtarget, ihvalue⟩, rfl⟩
  | callStatement _ _ _ ihx => exact ⟨ihx, rfl⟩

theorem orderly_of_readChunk {text : String} {ss : List (Stat String)} (h : readChunk text = some ss) :
    orderlyStats ss := by
  unfold readChunk at h
  split at h
  · rename_i statements hparse
    cases h
    exact (derived_parse .block _ _ hparse).orderly
  · cases h

theorem readChunk_of_lines {text : String} {ss : List (Stat String)} (h : Lines ss)
    (hlex : lex text.toList = tokensStats id ss) : readChunk text = some ss := by
  have hparse : parseBlock (tokensStats id ss ++ []) = some (ss, []) := (reads_stats ss h.wf [] rfl).parse_eq
  rw [List.append_nil, ← hlex] at hparse
  rw [readChunk, hparse]

/-! ## The prelude -/

/-- What the line that loads the `bit` library is read as. -/
def loadBit : Stat String :=
  .declare "bit" none [.call (.name "require") [.string (bytesOf "bit".toList)]]

def loads (bit : Bool) : List (Stat String) := if bit then [loadBit] else []

/-- The statements that the last text of a generator has before those of its tree. -/
def Generator.prelude (generator : Generator) : List (Stat String) := loads generator.draft.usesBitLibrary

theorem fixed_loads (bit : Bool) :
    Fixed (if bit then bitPrelude else "").toList (tokensStats id (loads bit)) := by
  cases bit with
  | false => exact Fixed.nil
  | true => exact fixed_of_run rfl rfl

theorem Lines.loads {ss : List (Stat String)} (h : Lines ss) (bit : Bool) :
    Lines (CodeTree.Lua.loads bit ++ ss) := by
  cases bit with
  | false => exact h
  | true =>
    have hload : Lines [loadBit] :=
      lines_singleton ⟨⟨rfl, trivial, trivial, trivial⟩, trivial⟩ rfl
    exact hload.append (List.forall_mem_singleton.2 rfl) h

theorem orderlyStats_loads {ss : List (Stat String)} (bit : Bool) :
    orderlyStats (loads bit ++ ss) ↔ orderlyStats ss := by
  have hload : ∀ s ∈ loads bit, s.isResult = false := by
    cases bit with
    | false => simp [loads]
    | true => exact List.forall_mem_singleton.2 rfl
  have horderly : orderlyStats (loads bit) := by
    cases bit with
    | false => trivial
    | true => exact orderlyStats_singleton.2 ⟨⟨trivial, trivial, trivial⟩, trivial⟩
  rw [orderlyStats_append_of_goesOn hload]
  exact and_iff_right horderly

/-! ## The generator -/

variable {generator : Generator} {statements : List Statement} {text : String}

/-- The text of accepted statements has the tokens of their syntax trees, behind those of the prelude. -/
theorem lex_generateStatements (haccepted : (generator.generateStatements statements).1 = .ok text)
    (hspellable : ∀ node ∈ renderedStatements statements, Spellable generator.setting node) :
    ∃ ss, toLuaStatements? (fun _ name => name) generator.setting statements = some ss ∧
      lex text.toList = tokensStats id ((generator.generateStatements statements).2.prelude ++ ss) := by
  obtain ⟨w, bit, hw, rfl⟩ := generateStatements_eq_ok.1 haccepted
  have hbit : (generator.generateStatements statements).2.draft.usesBitLibrary = bit := by
    rw [Generator.generateStatements, draft_run_of_adds hw]
  obtain ⟨ss, hss, hfixed⟩ : ∃ ss,
      toLuaStatements? (fun _ name => name) generator.setting statements = some ss ∧
        Fixed w (tokensStats id ss) :=
    fixed_emitStatements (fun _ _ => rfl) statements hspellable ⟨bit, hw⟩
  refine ⟨ss, hss, ?_⟩
  have hlex := ((fixed_loads bit).append hfixed) []
  rw [List.append_nil, show lex [] = [] from rfl, List.append_nil, ← tokensStats_append] at hlex
  rw [Generator.prelude, hbit, String.toList_append, String.toList_ofList, hlex]

/-- The nodes of accepted statements compose if returns end their blocks and places are assigned to. -/
theorem composed_of_accepted {tag : Origin → String → String}
    (haccepted : (generator.generateStatements statements).1 = .ok text)
    (hspellable : ∀ node ∈ renderedStatements statements, Spellable generator.setting node)
    (hplaces : ∀ node ∈ renderedStatements statements, ∀ target ∈ node.targets,
      IsPlace tag generator.setting target)
    (horder : InOrder (renderedStatements statements)) :
    ∀ node ∈ renderedStatements statements, Composed tag generator.setting True node := by
  obtain ⟨w, bit, hw, -⟩ := generateStatements_eq_ok.1 haccepted
  have hrepresentable : AllRepresentable generator.setting (renderedStatements statements) :=
    (succeeds_emitStatements statements 0).1 ⟨w, bit, hw⟩
  intro node hnode
  refine ⟨(hspellable node hnode).standard, (hspellable node hnode).sites, fun _ => trivial,
    fun _ => horder node hnode, ?_⟩
  rintro - s rfl
  cases s with
  | expression value =>
    exact fun x hx => isCall_of_standsAlone (standsAlone_iff.2 (hrepresentable _ hnode)) hx
  | assignment target value => exact hplaces _ hnode target (List.mem_singleton.2 rfl)
  | declaration | result | block => trivial

/-- Statements that are accepted have syntax trees, in which a return ends its block exactly where it
does in the statements: nothing keeps what stands behind a return apart from it. So the text has the
tokens of these trees, and it is read as these trees exactly if in the list, in every block and in every
method only the last statement returns. -/
theorem readChunk_generateStatements_iff
    (haccepted : (generator.generateStatements statements).1 = .ok text)
    (hraw : ∀ node ∈ renderedStatements statements, node.isRaw = false) :
    ∃ ss, toLuaStatements? (fun _ name => name) generator.setting statements = some ss ∧
      (orderlyStats ss ↔ ReturnsLast statements ∧ InOrder (renderedStatements statements)) ∧
      ((∀ node ∈ renderedStatements statements, Spellable generator.setting node) →
        (∀ node ∈ renderedStatements statements, ∀ target ∈ node.targets,
          IsPlace (fun _ name => name) generator.setting target) →
        lex text.toList = tokensStats id ((generator.generateStatements statements).2.prelude ++ ss) ∧
        (readChunk text = some ((generator.generateStatements statements).2.prelude ++ ss) ↔
          ReturnsLast statements ∧ InOrder (renderedStatements statements))) := by
  obtain ⟨w, bit, hw, -⟩ := generateStatements_eq_ok.1 haccepted
  obtain ⟨ss, hss⟩ := exists_toLuaStatements? (fun _ name => name) statements hraw ⟨bit, hw⟩
  have horderly := orderly_toLuaStatements? statements hss
  refine ⟨ss, hss, horderly, fun hspellable hplaces => ?_⟩
  obtain ⟨ss', hss', hlex⟩ := lex_generateStatements haccepted hspellable
  obtain rfl : ss' = ss := Option.some.inj (hss'.symm.trans hss)
  refine ⟨hlex, fun hread => ?_, ?_⟩
  · exact horderly.1 ((orderlyStats_loads _).1 (orderly_of_readChunk hread))
  · rintro ⟨hlast, horder⟩
    have hcomposed := composed_of_accepted haccepted hspellable hplaces horder
    exact readChunk_of_lines ((lines_toLuaStatements? statements trivial hlast hcomposed hss).loads _) hlex

/-- A return in a block, one in a method and one at the end of the list: each ends its block. -/
theorem readChunk_block_assignment_method :
    ((Generator.new ⟨["f", "x"]⟩ { target := .luaJIT }).generateStatements
      [.block [.result none],
        .assignment (.identifier ⟨1⟩) (.call none (.named ⟨0⟩) [⟨none, .binary (.standard .bitwiseAnd)
          (.identifier ⟨1⟩) (.literal (.integer 1)), .byValue⟩] false),
        .result (some (.method true [] none [.result (some (.identifier ⟨1⟩))] none))]).1 =
      .ok ("local bit = require('bit')\ndo\n  return\nend\nx = f(bit.band(x, 1))\n" ++
        "return function()\n  return x\nend\n") ∧
    readChunk ("local bit = require('bit')\ndo\n  return\nend\nx = f(bit.band(x, 1))\n" ++
        "return function()\n  return x\nend\n") =
      some [loadBit, .block [.result []],
        .assign (.name "x")
          (.call (.name "f") [.call (.field (.name "bit") "band") [.name "x", .numeral "1"]]),
        .result [.function [] [.result [.name "x"]]]] := by
  refine (fun haccepted => ⟨haccepted, ?_⟩) rfl
  obtain ⟨ss, hss, -, hread⟩ := readChunk_generateStatements_iff haccepted (by decide)
  cases hss
  refine (hread (fun node hnode => ⟨?_, ?_, ?_, ?_⟩) (by decide)).2.2 (by decide)
  all_goals
    revert node
    decide

/-- A call behind a return without a value is accepted, and read as its result. -/
theorem not_apart_from_return :
    ((Generator.new ⟨["f"]⟩ {}).generateStatements
      [.result none, .expression (.call none (.named ⟨0⟩) [] false)]).1 = .ok "return\nf()\n" ∧
    readChunk "return\nf()\n" = some [.result [.call (.name "f") []]] := by
  have hlines : Lines [Stat.result [.call (.name "f") []]] :=
    lines_singleton ⟨⟨rfl, trivial, trivial⟩, trivial⟩ rfl
  exact ⟨rfl, readChunk_of_lines hlines rfl⟩

end CodeTree.Lua
