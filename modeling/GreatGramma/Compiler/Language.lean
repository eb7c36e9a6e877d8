import GreatGramma.Compiler.Binding
import GreatGramma.Compiler.Lexemes
import GreatGramma.Library.ItemAutomaton
import GreatGramma.Matcher.Corruption
import GreatGramma.Matcher.Language

/-!
# The language of a source grammar

A source grammar describes a language of its own: an input is cut by longest match into words,
each labelled by the pattern of the smallest priority, the ignored terminals are left out, and what
remains is a sentence of the context-free grammar, from its start production
(`ParsedGrammar.Derives`).  This is what a matcher of the compiled grammar accepts, whatever tokens
the input comes in (`compiled_language_exact`).

## What is left to do

The lexer and the parser have been brought to their sources already: the table of the lexer labels
by patterns (`Compiler.Lexemes`), and the parser runs as the generated tables do
(`Compiler.Pipeline`).  What is left is to read the generated tables against the grammar.

## What is assumed

`lrtable` is assumed to generate the tables from an item automaton that accepts with the start
production (`Generators.Automata`).  This is what an LR generator does, and it says nothing of a
language.  It follows, by the library's theory of item automata, that no run of the tables faults,
which is the assumption about parser tables that matchers rest on, and that they accept the
language of the grammar.  Together with what is assumed of the other crates it is
`Generators.Documented`; the crates of the example, written out for the grammar of one letter, are
shown to satisfy all of it.

## What follows

Three theorems speak of matchers of a compiled grammar.  A fresh row accepts the inputs of the
language, however they are cut into tokens.  In every run, whatever calls are made with whatever
failures, an accepted row has read an input of the language (`compiled_runs_accept`).  And no call
in any run reports corrupt data (`compiled_never_corrupt`), since what a call executes on a row
that tokens describe meets no fault of the tables.
-/

namespace GreatGramma

open LabelledDfa Reservation ShiftReduce Traversal

/-! ## The grammar -/

/-- A symbol of `cfgrammar` as a symbol of a context-free grammar. -/
def GrammarSymbol.toSymbol : GrammarSymbol → Symbol ℕ ℕ
  | .rule r => .nonterminal r
  | .token t => .terminal t

namespace YaccGrammar

/-- A production as a rule. -/
def toRule (yacc : YaccGrammar) (production : ℕ) : ContextFreeRule ℕ ℕ where
  input := yacc.prodToRule production
  output := (yacc.prod production).map GrammarSymbol.toSymbol

/-- **The context-free grammar** of the productions.  It starts from the rule of the start
production. -/
def cfg (yacc : YaccGrammar) : ContextFreeGrammar ℕ where
  NT := ℕ
  initial := yacc.prodToRule yacc.startProd
  rules := (yacc.iterPidxs.map yacc.toRule).toFinset

/-- The rules, by the numbers of their productions. -/
def numberedRule (yacc : YaccGrammar) (production : ℕ) : Option (ContextFreeRule ℕ ℕ) :=
  if production < yacc.prodsLen then some (yacc.toRule production) else none

theorem numberedRule_eq_some {yacc : YaccGrammar} {production : ℕ} {A : ContextFreeRule ℕ ℕ} :
    yacc.numberedRule production = some A ↔
      production < yacc.prodsLen ∧ yacc.toRule production = A := by
  rw [numberedRule]
  split_ifs with hlt
  · rw [Option.some.injEq]
    exact (and_iff_right hlt).symm
  · exact iff_of_false (fun h => by cases h) fun h => hlt h.1

theorem mem_rules_iff {yacc : YaccGrammar} {A : ContextFreeRule ℕ ℕ} :
    A ∈ yacc.cfg.rules ↔ ∃ production, yacc.numberedRule production = some A := by
  show A ∈ (yacc.iterPidxs.map yacc.toRule).toFinset ↔ _
  simp only [iterPidxs, List.mem_toFinset, List.mem_map, List.mem_range, numberedRule_eq_some]

end YaccGrammar

section
variable {σ ρ StateID : Type}

/-- **What is relied on of `lrtable`'s tables**: without conflicts, and for a grammar without
precedences, they are those of an item automaton for the grammar, which accepts with the start
production. -/
def Generators.Automata (generators : Generators σ ρ StateID) : Prop :=
  ∀ text yacc graph table, generators.yaccNew text = .ok yacc →
    generators.fromYacc yacc = .ok (graph, table) → table.conflicts = none →
    rejectUnsupportedGrammar yacc = .ok () →
      Nonempty (ItemAutomaton (table.machine graph yacc) yacc.cfg yacc.numberedRule
        table.startState yacc.startProd yacc.eofTokenIdx)

/-- **The crates as they are documented.** -/
structure Generators.Documented (generators : Generators σ ρ StateID)
    (Matches : String → List UInt8 → Prop) (Lexeme : σ → ℕ → List UInt8 → Prop) : Prop where
  formed : generators.WellFormed
  indexed : ∀ text yacc, generators.yaccNew text = .ok yacc → yacc.Indexed
  listed : generators.Listed
  automata : generators.Automata
  lexers : generators.lexers.Means generators.engine Matches Lexeme

end

/-- **The language of a parsed grammar**: what is cut into terminals that, without the ignored
ones, are a sentence. -/
def ParsedGrammar.Derives (parsed : ParsedGrammar) (Matches : String → List UInt8 → Prop)
    (bytes : List UInt8) : Prop :=
  ∃ emitted, Cuts (PatternLabel Matches parsed.terminals) bytes emitted ∧
    parsed.kept emitted ∈ parsed.yacc.cfg.language

/-! ## The parser of a compilation -/

namespace Compilation

variable {σ ρ StateID : Type} [DecidableEq StateID] {generators : Generators σ ρ StateID}
  {source : SourceGrammar} {tokenizer : TokenizerManifest} {limits : CompileLimits}
  (c : Compilation generators source tokenizer limits)

/-- An item automaton behind the generated tables. -/
abbrev Items : Type :=
  ItemAutomaton c.machine c.parsed.yacc.cfg c.parsed.yacc.numberedRule c.table.startState
    c.parsed.yacc.startProd c.parsed.yacc.eofTokenIdx

variable {c}

/-- **No run from the start faults.** -/
theorem parse_ne_fault (M : c.Items) {terminals : List TerminalId}
    (hterminals : c.validated.lalr.ValidTerminals terminals)
    (f : Fault ParserStateId TerminalId ProductionId) :
    c.validated.lalr.table.parse [c.validated.lalr.startState] terminals ≠ .fault f := by
  intro hfault
  have hruns := c.parser.runs ValidatedGrammar.validStack_start hterminals
  rw [hfault, c.parser.startState] at hruns
  exact (M.sound hruns).1 f rfl

/-- What is accepted in front of EOF is all there is. -/
theorem accepted_eof {lalr : ValidatedLalr} {stack : List ParserStateId}
    (hstack : lalr.ValidStack stack) {terminals rest : List TerminalId}
    (hterminals : lalr.Emittable terminals)
    (h : lalr.table.parse stack (terminals ++ [lalr.eofTerminal]) = .accepted rest) :
    rest = [] := by
  obtain ⟨before, hsplit⟩ := ValidatedLalr.parse_accepted hstack hterminals.snoc_eof h
  rcases List.eq_nil_or_concat rest with rfl | ⟨rest, last, rfl⟩
  · rfl
  · rw [List.concat_eq_append, ← List.cons_append, ← List.append_assoc] at hsplit
    have hmem : lalr.eofTerminal ∈ terminals := by
      rw [(List.append_inj' hsplit rfl).1]
      exact List.mem_append_right _ List.mem_cons_self
    exact absurd rfl (hterminals _ hmem).2

/-- **The assumption about parser tables holds** of a compiled grammar. -/
theorem tableAssumption (M : c.Items) : c.validated.TableAssumption := by
  intro terminals hterminals e
  rw [executeTerminals_eq ValidatedGrammar.validStack_start hterminals.valid,
    executeTerminals_eq ValidatedGrammar.validStack_start hterminals.snoc_eof]
  constructor
  · cases hparse : c.validated.lalr.table.parse [c.validated.lalr.startState] terminals with
    | live stack => exact fun h => by cases h
    | rejected => exact fun h => by cases h
    | fault f => exact absurd hparse (parse_ne_fault M hterminals.valid f)
    | accepted rest =>
      exact absurd hparse
        (ValidatedLalr.parse_ne_accepted ValidatedGrammar.validStack_start hterminals)
  · cases hparse : c.validated.lalr.table.parse [c.validated.lalr.startState]
        (terminals ++ [c.validated.lalr.eofTerminal]) with
    | live stack => exact fun h => by cases h
    | rejected => exact fun h => by cases h
    | fault f => exact absurd hparse (parse_ne_fault M hterminals.snoc_eof f)
    | accepted rest =>
      obtain rfl := accepted_eof ValidatedGrammar.validStack_start hterminals hparse
      exact fun h => by cases h

theorem kept_snoc_eof (c : Compilation generators source tokenizer limits)
    (terminals : List TerminalId) :
    c.parsed.kept (terminals ++ [c.validated.lalr.eofTerminal]) =
      c.parsed.kept terminals ++ [c.validated.lalr.eofTerminal] := by
  have heof : c.validated.lalr.eofTerminal ∉ c.parsed.ignored := by
    intro hmem
    have hignored := (c.parser.ignored _).mpr hmem
    rw [ValidatedLalr.isIgnored_eofTerminal] at hignored
    cases hignored
  rw [ParsedGrammar.kept, List.filter_append,
    List.filter_cons_of_pos (by exact decide_eq_true heof), List.filter_nil]
  rfl

/-- **The parser accepts the sentences of the grammar**, with ignored terminals anywhere. -/
theorem parser_accepts_iff (M : c.Items) {terminals : List TerminalId}
    (hterminals : c.validated.lalr.Emittable terminals) :
    (executeTerminals c.validated [c.validated.lalr.startState]
          (terminals ++ [c.validated.lalr.eofTerminal]) .granting).1 = .ok (some .accepted) ↔
      c.parsed.kept terminals ∈ c.parsed.yacc.cfg.language := by
  have hruns := c.parser.runs ValidatedGrammar.validStack_start hterminals.snoc_eof
  rw [c.kept_snoc_eof, c.parser.eofTerminal, c.parser.startState] at hruns
  rw [ValidatedGrammar.executeTerminals_accepted_iff ValidatedGrammar.validStack_start
    hterminals.snoc_eof, ← M.accepts_iff, c.parser.eofTerminal, c.parser.startState]
  constructor
  · intro haccepted
    rw [haccepted] at hruns
    exact hruns
  · intro haccepts
    have hsame := hruns.unique haccepts
    cases hparse : c.validated.lalr.table.parse [c.table.startState]
        (terminals ++ [c.parsed.yacc.eofTokenIdx]) with
    | accepted rest =>
      rw [← c.parser.eofTerminal, ← c.parser.startState] at hparse
      rw [accepted_eof ValidatedGrammar.validStack_start hterminals hparse]
    | live stack =>
      rw [hparse] at hsame
      cases hsame
    | rejected =>
      rw [hparse] at hsame
      cases hsame
    | fault f =>
      rw [hparse] at hsame
      cases hsame

/-! ## The lexer of a compilation

Words without a label are not cut off: the DFA of the table is stuck where no pattern can match any
more. -/

/-- **The lexer cuts by the patterns.** -/
theorem lexes_iff {Matches : String → List UInt8 → Prop} {Lexeme : σ → ℕ → List UInt8 → Prop}
    (hgenerators : generators.WellFormed)
    (hlexers : generators.lexers.Means generators.engine Matches Lexeme) {bytes : List UInt8}
    {emitted : List TerminalId} :
    foldLexerSteps c.validated .start bytes = .ok emitted ↔
      Cuts (PatternLabel Matches c.parsed.terminals) bytes emitted := by
  have haccepts : ∀ word t, word ≠ [] → (c.validated.lexer.dfa.Accepts word t ↔
      PatternLabel Matches c.parsed.terminals word t) := by
    intro word t _
    rw [c.dfa]
    exact compiled_accepts_iff hgenerators.lexers hlexers c.regexes c.exported word t
  have hfold : (foldLexerSteps c.validated .start bytes).toOption = _ :=
    foldLexerSteps_eq bytes trivial
  rw [← munch_iff_cuts haccepts, ← eager_some_iff c.closed ValidatedLexer.dfa_start_unlabelled]
  cases hrun : foldLexerSteps c.validated .start bytes with
  | error e =>
    rw [hrun] at hfold
    rw [show c.validated.lexer.dfa.eager none bytes = none from hfold.symm]
    exact iff_of_false (fun h => by cases h) (fun h => by cases h)
  | ok emitted' =>
    rw [hrun] at hfold
    rw [show c.validated.lexer.dfa.eager none bytes = some emitted' from hfold.symm,
      Option.some.injEq, Except.ok.injEq]

/-- **Lexing and parsing the whole input** decide the language. -/
theorem derives_iff {Matches : String → List UInt8 → Prop} {Lexeme : σ → ℕ → List UInt8 → Prop}
    (hgenerators : generators.WellFormed)
    (hlexers : generators.lexers.Means generators.engine Matches Lexeme) (M : c.Items)
    {bytes : List UInt8} :
    (∃ emitted, foldLexerSteps c.validated .start bytes = .ok emitted ∧
        (executeTerminals c.validated [c.validated.lalr.startState]
          (emitted ++ [c.validated.lalr.eofTerminal]) .granting).1 = .ok (some .accepted)) ↔
      c.parsed.Derives Matches bytes := by
  have hemittable : ∀ emitted, foldLexerSteps c.validated .start bytes = .ok emitted →
      c.validated.lalr.Emittable emitted := by
    intro emitted hfold
    have hstart : LexerState.start.Valid c.validated.lexer := trivial
    obtain ⟨_, em, label, hrun, hflush, rfl⟩ :=
      (ValidatedGrammar.foldLexerSteps_eq_ok hstart).mp hfold
    exact (ValidatedGrammar.scanner_run_emittable hrun).append
      (ValidatedGrammar.scanner_flush_emittable hflush)
  constructor
  · rintro ⟨emitted, hfold, haccepted⟩
    exact ⟨emitted, (lexes_iff hgenerators hlexers).mp hfold,
      (parser_accepts_iff M (hemittable emitted hfold)).mp haccepted⟩
  · rintro ⟨emitted, hcuts, hlanguage⟩
    have hfold := (lexes_iff hgenerators hlexers).mpr hcuts
    exact ⟨emitted, hfold, (parser_accepts_iff M (hemittable emitted hfold)).mpr hlanguage⟩

/-! ## Tokens -/

end Compilation

/-- The bytes that tokens of a manifest spell. -/
def TokenizerManifest.spelling (tokenizer : TokenizerManifest) : List TokenId → Option (List UInt8)
  | [] => some []
  | token :: tokens =>
    match tokenizer.tokens[token]? with
    | some (.bytes bytes) => (tokenizer.spelling tokens).map fun rest => bytes ++ rest
    | _ => none

namespace Compilation

variable {σ ρ StateID : Type} [DecidableEq StateID] {generators : Generators σ ρ StateID}
  {source : SourceGrammar} {tokenizer : TokenizerManifest} {limits : CompileLimits}
  (c : Compilation generators source tokenizer limits)

theorem token_eos_iff {token : TokenId} :
    c.validated.token token = some .eos ↔ tokenizer.tokens[token]? = some .eos := by
  rw [c.tokens]
  cases tokenizer.tokens[token]? with
  | none => exact iff_of_false (fun h => by cases h) fun h => by cases h
  | some entry => cases entry <;> simp [TokenSpec.entry]

/-- The tokens of the grammar are those of the manifest. -/
theorem spelling_eq (tokens : List TokenId) :
    c.validated.spelling tokens = tokenizer.spelling tokens := by
  induction tokens with
  | nil => rfl
  | cons token tokens ih =>
    rw [ValidatedGrammar.spelling, TokenizerManifest.spelling, c.tokens, ih]
    cases tokenizer.tokens[token]? with
    | none => rfl
    | some entry => cases entry <;> rfl

theorem readsEnd_iff {Matches : String → List UInt8 → Prop} {Lexeme : σ → ℕ → List UInt8 → Prop}
    (hgenerators : generators.WellFormed)
    (hlexers : generators.lexers.Means generators.engine Matches Lexeme) (M : c.Items)
    {tokens : List TokenId} :
    c.validated.ReadsEnd tokens ↔ ∃ before eos bytes, tokens = before ++ [eos] ∧
      tokenizer.tokens[eos]? = some .eos ∧ tokenizer.spelling before = some bytes ∧
        c.parsed.Derives Matches bytes := by
  have hstart : LexerState.start.Valid c.validated.lexer := trivial
  constructor
  · rintro ⟨before, eos, lexer, emitted, flushed, eof, rfl, heos, ⟨bytes, hspelling, hrun⟩, hstep,
      haccepted⟩
    have hflush : c.validated.scanner.flush lexer = some flushed := by
      simp only [ValidatedGrammar.scanner, hstep]
    have hsame := hstep.symm.trans (PreparedGrammar.lexerStep_eos_of_flush hflush)
    obtain ⟨-, rfl⟩ := LexerStep.finished.inj (Except.ok.inj hsame)
    exact ⟨before, eos, bytes, rfl, c.token_eos_iff.mp heos, (c.spelling_eq before) ▸ hspelling,
      (derives_iff hgenerators hlexers M).mp ⟨emitted ++ flushed.toList,
        (ValidatedGrammar.foldLexerSteps_eq_ok hstart).mpr
          ⟨lexer, emitted, flushed, hrun, hflush, rfl⟩, haccepted⟩⟩
  · rintro ⟨before, eos, bytes, rfl, heos, hspelling, hderives⟩
    obtain ⟨emitted, hfold, haccepted⟩ := (derives_iff hgenerators hlexers M).mpr hderives
    obtain ⟨lexer, em, label, hrun, hflush, rfl⟩ :=
      (ValidatedGrammar.foldLexerSteps_eq_ok hstart).mp hfold
    exact ⟨before, eos, lexer, em, label, _, rfl, c.token_eos_iff.mpr heos,
      ⟨bytes, (c.spelling_eq before).trans hspelling, hrun⟩,
      PreparedGrammar.lexerStep_eos_of_flush hflush, haccepted⟩

theorem exists_items {Matches : String → List UInt8 → Prop} {Lexeme : σ → ℕ → List UInt8 → Prop}
    (hgenerators : generators.Documented Matches Lexeme)
    (c : Compilation generators source tokenizer limits) :
    Nonempty c.Items := by
  have hparses := parses_of_parseSource c.parse
  exact hgenerators.automata _ _ _ _ hparses.text c.generated c.conflicts hparses.supported

end Compilation

/-! ## The grammar of one letter

One token with the pattern `a`, and one rule.  The items and the edges between them are written
out, and every assumption about the crates is checked. -/

/-- The crates, as they answer for the source of one letter.  A vector is made of the lexemes of
that source only. -/
def letterCrates : Generators (List String) Unit (Fin 3) :=
  { letterGenerators with
    lexers := { letterGenerators.lexers with
      toRegexVec := fun spec _ => if spec = ["", "a"] then .ok () else .error "" } }

/-- What matches there: the letter `a`. -/
def LetterMatches (pattern : String) (word : List UInt8) : Prop := pattern = "a" ∧ word = [97]

def LetterLexeme (spec : List String) (index : ℕ) (word : List UInt8) : Prop :=
  ∃ pattern, spec[index]? = some pattern ∧ LetterMatches pattern word

/-- The automaton behind the vector. -/
def letterLexemes : RegexAutomaton (Fin 3) :=
  { letterAutomaton with accepting := fun s => if s.val = 1 then [1] else [] }

theorem letterLexemes_deterministic (compiled : CompiledRegexes Unit (Fin 3))
    (hstart : compiled.start = 0) :
    letterCrates.engine.Deterministic compiled letterLexemes fun _ _ => True where
  knows_start := trivial
  knows_setMaxStates _ _ _ _ := trivial
  knows_setFuel _ _ _ _ := trivial
  knows_transition _ _ _ _ _ _ _ := trivial
  knows_next _ _ _ _ _ := trivial
  transition _ _ _ _ _ := rfl
  accepting _ _ _ := rfl
  sameClass := letter_deterministic.sameClass
  dead := letter_deterministic.dead
  start_live := by
    rw [hstart]
    rfl
  class_lt := letter_deterministic.class_lt
  class_onto := letter_deterministic.class_onto

theorem letterLexemes_accepting (word : List UInt8) (index : ℕ) :
    index ∈ letterLexemes.accepting (word.foldl letterLexemes.step 0) ↔
      index = 1 ∧ word = [97] := by
  have hdead : ∀ word : List UInt8, word.foldl letterLexemes.step 2 = 2 := by
    intro word
    induction word with
    | nil => rfl
    | cons byte word ih => exact ih
  have hstate : (word.foldl letterLexemes.step 0).val = 1 ↔ word = [97] := by
    match word with
    | [] => decide
    | byte :: rest =>
      by_cases hbyte : byte = 97
      · subst hbyte
        match rest with
        | [] => decide
        | second :: rest =>
          refine iff_of_false (fun h => ?_) fun h => by cases h
          have hend : ((97 :: second :: rest : List UInt8).foldl letterLexemes.step 0) = 2 :=
            hdead rest
          rw [hend] at h
          cases h
      · refine iff_of_false (fun h => ?_) fun h => hbyte (List.cons.inj h).1
        have hstep : letterLexemes.step 0 byte = 2 := if_neg fun h => hbyte h.2
        rw [List.foldl_cons, hstep, hdead rest] at h
        cases h
  rw [show letterLexemes.accepting (word.foldl letterLexemes.step 0) =
    if (word.foldl letterLexemes.step 0).val = 1 then [1] else [] from rfl]
  split_ifs with h
  · rw [List.mem_singleton]
    exact (and_iff_left (hstate.mp h)).symm
  · exact iff_of_false List.not_mem_nil fun hword => h (hstate.mpr hword.2)

/-- The items of the generated table. -/
def LetterItem (q r k a : ℕ) : Prop :=
  a = 1 ∧ ((q = 0 ∧ r < 2 ∧ k = 0) ∨ (q = 1 ∧ r = 1 ∧ k = 1) ∨ (2 ≤ q ∧ r = 0 ∧ k = 1))

def LetterEdge (q : ℕ) (X : Symbol ℕ ℕ) (d : ℕ) : Prop :=
  q = 0 ∧ ((X = .nonterminal 1 ∧ d = 1) ∨ (X = .terminal 0 ∧ d = 2))

theorem letterGrammar_rule {r : ℕ} {A : ContextFreeRule ℕ ℕ}
    (h : letterGrammar.numberedRule r = some A) :
    (r = 0 ∧ A = ⟨1, [.terminal 0]⟩) ∨ (r = 1 ∧ A = ⟨0, [.nonterminal 1]⟩) := by
  obtain ⟨hlt, rfl⟩ := YaccGrammar.numberedRule_eq_some.mp h
  have hlt' : r < 2 := hlt
  obtain rfl | rfl : r = 0 ∨ r = 1 := by omega
  · exact Or.inl ⟨rfl, rfl⟩
  · exact Or.inr ⟨rfl, rfl⟩

theorem letterTable_move (q t : ℕ) : (letterTable.machine letterGraph letterGrammar).move q t =
    if q = 0 then if t = 0 then .shift 2 else .reject
    else if t = 1 then if q = 1 then .accept else .reduce 0 0 else .reject := by
  show (if t ∈ if q = 0 then [0] else [1] then
    (if q = 0 then LrAction.shift 2 else if q = 1 then .accept else .reduce 0).toMove
      else .reject) = _
  split_ifs with h₁ h₂ h₃ h₃ h₄ h₄ <;> simp_all [LrAction.toMove]

/-- **The generated table comes from an item automaton.** -/
def letterItems : ItemAutomaton (letterTable.machine letterGraph letterGrammar)
    letterGrammar.cfg letterGrammar.numberedRule letterTable.startState
    letterGrammar.startProd letterGrammar.eofTokenIdx where
  edge := LetterEdge
  item := LetterItem
  mem_rules h := YaccGrammar.mem_rules_iff.mpr ⟨_, h⟩
  exists_rule h := YaccGrammar.mem_rules_iff.mp h
  item_rule := by
    rintro q r k a ⟨-, h⟩
    have hr : r = 0 ∨ r = 1 := by omega
    rcases hr with rfl | rfl
    · exact ⟨_, rfl, rfl⟩
    · exact ⟨_, rfl, rfl⟩
  final_input := by
    intro A h
    rcases letterGrammar_rule h with ⟨hr, -⟩ | ⟨-, rfl⟩
    · cases hr
    · rfl
  final_unique := by
    intro r A h hinput
    rcases letterGrammar_rule h with ⟨-, rfl⟩ | ⟨hr, -⟩
    · cases hinput
    · exact hr
  final_only := by
    rintro q a ⟨-, h⟩
    show q = 0
    omega
  initial_unread := by
    intro r A h hmem
    rcases letterGrammar_rule h with ⟨-, rfl⟩ | ⟨-, rfl⟩
    · cases List.mem_singleton.mp hmem
    · cases List.mem_singleton.mp hmem
  start_dot := by
    rintro r k a ⟨-, h⟩
    have hstart : letterTable.startState = 0 := rfl
    omega
  kernel := by
    rintro q X d ⟨-, ⟨-, rfl⟩ | ⟨-, rfl⟩⟩
    · exact ⟨1, 0, 1, rfl, by omega⟩
    · exact ⟨0, 0, 1, rfl, by omega⟩
  backward := by
    rintro q X d r k a A ⟨rfl, ⟨rfl, rfl⟩ | ⟨rfl, rfl⟩⟩ ⟨-, hitem⟩ hrule
    · obtain ⟨rfl, rfl⟩ : r = 1 ∧ k = 0 := by omega
      rcases letterGrammar_rule hrule with ⟨hr, -⟩ | ⟨-, rfl⟩
      · cases hr
      · exact ⟨rfl, 1, rfl, by omega⟩
    · obtain ⟨rfl, rfl⟩ : r = 0 ∧ k = 0 := by omega
      rcases letterGrammar_rule hrule with ⟨-, rfl⟩ | ⟨hr, -⟩
      · exact ⟨rfl, 1, rfl, by omega⟩
      · cases hr
  closed := by
    rintro q r a A ⟨-, hitem⟩ hfinal hrule
    rcases letterGrammar_rule hrule with ⟨-, rfl⟩ | ⟨hr, -⟩
    · exact ⟨1, 0, 1, ⟨rfl, by omega⟩, _, rfl, rfl⟩
    · exact absurd hr hfinal
  start_item := ⟨rfl, Or.inl ⟨rfl, by decide, rfl⟩⟩
  forward := by
    rintro q r k a X A ⟨rfl, hitem⟩ hrule hX
    have hk : k = 0 := by
      have hlt := (List.getElem?_eq_some_iff.mp hX).1
      rcases letterGrammar_rule hrule with ⟨-, rfl⟩ | ⟨-, rfl⟩ <;>
        exact Nat.lt_one_iff.mp hlt
    subst hk
    rcases letterGrammar_rule hrule with ⟨rfl, rfl⟩ | ⟨rfl, rfl⟩
    · exact ⟨2, ⟨by omega, Or.inr ⟨(Option.some.inj hX).symm, rfl⟩⟩, rfl, by omega⟩
    · exact ⟨1, ⟨by omega, Or.inl ⟨(Option.some.inj hX).symm, rfl⟩⟩, rfl, by omega⟩
  closure := by
    rintro q r k a r' b v A A' ⟨rfl, hitem⟩ hrule hrule' hX hderives hhead
    have hk : k = 0 := by
      have hlt := (List.getElem?_eq_some_iff.mp hX).1
      rcases letterGrammar_rule hrule with ⟨-, rfl⟩ | ⟨-, rfl⟩ <;>
        exact Nat.lt_one_iff.mp hlt
    subst hk
    rcases letterGrammar_rule hrule with ⟨rfl, rfl⟩ | ⟨rfl, rfl⟩
    · cases Option.some.inj hX
    · have hv : v = [] := by
        cases ContextFreeGrammar.Yields.of_derives hderives
        rfl
      subst hv
      rcases letterGrammar_rule hrule' with ⟨rfl, rfl⟩ | ⟨rfl, rfl⟩
      · exact ⟨(Option.some.inj hhead).symm, by omega⟩
      · cases Option.some.inj hX
  shift_edge := by
    intro q t d hmove
    rw [letterTable_move] at hmove
    split_ifs at hmove with hq ht ht hq'
    cases hmove
    exact ⟨hq, Or.inr ⟨congrArg Symbol.terminal ht, rfl⟩⟩
  edge_shift := by
    rintro q r k a t d A - - - ⟨rfl, ⟨hX, -⟩ | ⟨hX, rfl⟩⟩
    · cases hX
    · rw [letterTable_move, Symbol.terminal.inj hX]
      rfl
  reduce_item := by
    intro q t r rank hmove
    rw [letterTable_move] at hmove
    split_ifs at hmove with hq ht ht hq'
    cases hmove
    exact ⟨by decide, _, 1, rfl, rfl, Or.inr (Or.inr ⟨by omega, rfl, rfl⟩)⟩
  item_reduce := by
    rintro q r a A ⟨rfl, hitem⟩ hrule hfinal
    rcases letterGrammar_rule hrule with ⟨rfl, rfl⟩ | ⟨hr, -⟩
    · have hitem' : (q = 0 ∧ 0 < 2 ∧ 1 = 0) ∨ (q = 1 ∧ 0 = 1 ∧ 1 = 1) ∨
          (2 ≤ q ∧ 0 = 0 ∧ 1 = 1) := hitem
      refine ⟨0, ?_⟩
      rw [letterTable_move, if_neg (by omega), if_pos rfl, if_neg (by omega)]
    · exact absurd hr hfinal
  accept_item := by
    intro q t hmove
    rw [letterTable_move] at hmove
    split_ifs at hmove with hq ht ht hq'
    cases hmove
    exact ⟨_, 1, rfl, rfl, Or.inr (Or.inl ⟨hq', rfl, rfl⟩)⟩
  item_accept := by
    rintro q a A ⟨rfl, hitem⟩ hrule
    rcases letterGrammar_rule hrule with ⟨hr, -⟩ | ⟨-, rfl⟩
    · cases hr
    · have hitem' : (q = 0 ∧ 1 < 2 ∧ 1 = 0) ∨ (q = 1 ∧ 1 = 1 ∧ 1 = 1) ∨
          (2 ≤ q ∧ 1 = 0 ∧ 1 = 1) := hitem
      have hq : q = 1 := by omega
      rw [letterTable_move, hq]
      rfl
  goto_edge := by
    intro q r d A hrule
    show letterGraph.goto q (letterGrammar.prodToRule r) = some d ↔ _
    have hgoto : ∀ rule, letterGraph.goto q rule = if q = 0 ∧ 1 = rule then some 1 else none := by
      intro rule
      rw [StateGraph.goto, show letterGraph.edges q =
        if q = 0 then [(.rule 1, 1), (.token 0, 2)] else [] from rfl]
      by_cases hq : q = 0
      · by_cases hrule : 1 = rule <;> simp [hq, hrule]
      · simp [hq]
    rcases letterGrammar_rule hrule with ⟨rfl, rfl⟩ | ⟨rfl, rfl⟩
    · rw [hgoto, show letterGrammar.prodToRule 0 = 1 from rfl]
      by_cases hq : q = 0
      · rw [if_pos ⟨hq, rfl⟩]
        exact ⟨fun h => ⟨hq, Or.inl ⟨rfl, (Option.some.inj h).symm⟩⟩, fun h => by
          rcases h.2 with ⟨-, rfl⟩ | ⟨hX, -⟩
          · rfl
          · cases hX⟩
      · rw [if_neg fun h => hq h.1]
        exact iff_of_false (fun h => by cases h) fun h => hq h.1
    · rw [hgoto, show letterGrammar.prodToRule 1 = 0 from rfl,
        if_neg fun h => Nat.one_ne_zero h.2]
      refine iff_of_false (fun h => by cases h) fun h => ?_
      rcases h.2 with ⟨hX, -⟩ | ⟨hX, -⟩
      · cases hX
      · cases hX

/-- **These crates are as documented.** -/
theorem letterCrates_documented : letterCrates.Documented LetterMatches LetterLexeme := by
  have hgrammar : ∀ text yacc, letterCrates.yaccNew text = .ok yacc → letterGrammar = yacc :=
    fun _ _ h => (ite_ok_eq_ok.mp h).2
  refine ⟨⟨letterGenerators_wellFormed.yacc, letterGenerators_wellFormed.tables, ?_⟩,
    fun text yacc h => hgrammar text yacc h ▸ letterGrammar_indexed, letterGenerators_listed,
    fun text yacc graph table hyacc htable _ _ => ?_, ?_⟩
  · obtain ⟨hlt, hstable, hstart, hstates, hfuel⟩ := letterGenerators_wellFormed.lexers
    exact ⟨hlt, hstable, fun _ _ _ _ _ _ => rfl, hstates, hfuel⟩
  · obtain rfl := hgrammar text yacc hyacc
    obtain ⟨rfl, rfl⟩ := Prod.mk.inj (Except.ok.inj htable)
    exact ⟨letterItems⟩
  · have hadd : ∀ spec name pattern spec' index,
        letterCrates.lexers.addGreedyLexeme spec name pattern = .ok (spec', index) →
          spec' = spec ++ [pattern] ∧ index = spec.length := by
      intro spec name pattern spec' index h
      obtain ⟨-, heq⟩ := ite_ok_eq_ok.mp h
      obtain ⟨rfl, rfl⟩ := Prod.mk.inj heq
      exact ⟨rfl, rfl⟩
    refine ⟨fun spec name pattern spec' index h word => ?_,
      fun spec name pattern spec' index h earlier hearlier word => ?_,
      fun spec fuel regexes selected hvec hne hselected => ?_⟩
    · obtain ⟨rfl, rfl⟩ := hadd _ _ _ _ _ h
      rw [LetterLexeme, List.getElem?_concat_length]
      exact ⟨fun ⟨_, hp, hm⟩ => Option.some.inj hp ▸ hm, fun hm => ⟨pattern, rfl, hm⟩⟩
    · obtain ⟨rfl, rfl⟩ := hadd _ _ _ _ _ h
      rw [LetterLexeme, LetterLexeme, List.getElem?_append_left hearlier]
    · obtain ⟨rfl, -⟩ := ite_ok_eq_ok.mp hvec
      have hone : ∀ index ∈ selected, index = 1 := fun index hindex =>
        List.mem_singleton.mp (hselected index hindex).2
      refine ⟨letterLexemes, fun _ _ => True,
        fun compiled _ hstart => letterLexemes_deterministic compiled hstart, fun s hs => ?_,
        fun word index => (letterLexemes_accepting word index).trans ?_⟩
      · obtain rfl : s = 2 := of_decide_eq_true hs
        rfl
      · obtain ⟨index', hindex'⟩ := List.exists_mem_of_ne_nil _ hne
        constructor
        · rintro ⟨rfl, rfl⟩
          exact ⟨hone index' hindex' ▸ hindex', "a", rfl, rfl, rfl⟩
        · rintro ⟨hindex, pattern, -, -, hword⟩
          exact ⟨hone index hindex, hword⟩

/-! ## Matchers of a compiled grammar -/

section
variable {σ ρ StateID : Type} [DecidableEq StateID] {generators : Generators σ ρ StateID}
  {source : SourceGrammar} {tokenizer : TokenizerManifest} {limits : CompileLimits}
  {Matches : String → List UInt8 → Prop} {Lexeme : σ → ℕ → List UInt8 → Prop} {granted : Bool}
  {prepared : PreparedGrammar} {rows : ℕ} {memory₀ memory₁ : Memory} {matcher : Matcher}

theorem compile_ok (h : compile generators source tokenizer limits granted = .ok prepared) :
    ∃ grammar validated, normalize generators source tokenizer limits = .ok grammar ∧
      validate grammar limits.validation granted = .ok validated ∧
      prepare validated limits.preparation = .ok prepared := by
  rw [compile] at h
  obtain ⟨grammar, hnormalize, h⟩ := bind_eq_ok.mp h
  obtain ⟨validated, hvalidate, h⟩ := bind_eq_ok.mp h
  exact ⟨grammar, validated, hnormalize, mapError_eq_ok.mp hvalidate, mapError_eq_ok.mp h⟩

theorem compiled_from (hgenerators : generators.Documented Matches Lexeme)
    (h : compile generators source tokenizer limits granted = .ok prepared) :
    ∃ c : Compilation generators source tokenizer limits,
      Nonempty c.Items ∧ c.parsed.Resolved source ∧
        prepare c.validated limits.preparation = .ok prepared := by
  obtain ⟨grammar, validated, hnormalize, hvalidate, hprepare⟩ := compile_ok h
  obtain ⟨c, rfl⟩ :=
    exists_compilation hgenerators.formed hgenerators.listed hnormalize hvalidate
  exact ⟨c, c.exists_items hgenerators, parseSource_resolved c.parse
    (hgenerators.indexed _ _ (parses_of_parseSource c.parse).text), hprepare⟩

/-- **A compiled matcher accepts the language of its source.**  A fresh row takes tokens one by
one and then accepts at an EOS token just if the bytes of the tokens are cut, by longest match
and smallest priority, into terminals that without the ignored ones are a sentence of the
grammar. -/
theorem compiled_language_exact (hgenerators : generators.Documented Matches Lexeme)
    (h : compile generators source tokenizer limits granted = .ok prepared)
    (hmatcher : prepared.intoMatcher rows memory₀ = (.ok matcher, memory₁)) :
    ∃ parsed,
      parseSource generators.yaccNew source limits.maxTerminalSpecs = .ok parsed ∧
      parsed.Resolved source ∧
      ∀ row < rows, ∀ tokens bytes, tokenizer.spelling tokens = some bytes →
      ∀ eos, tokenizer.tokens[eos]? = some .eos →
        ((matcher.run .granting (tokens.map (.advance row) ++ [.advance row eos])).1.map
              Reply.value =
            (tokens.map fun _ => .ok (.result .continue)) ++ [.ok (.result .accepted)] ↔
          parsed.Derives Matches bytes) := by
  obtain ⟨c, ⟨M⟩, hresolved, hprepare⟩ := compiled_from hgenerators h
  refine ⟨c.parsed, c.parse, hresolved, fun row hrow tokens bytes hspelling eos heos => ?_⟩
  rw [← Compilation.derives_iff hgenerators.formed hgenerators.lexers M]
  have htable := Compilation.tableAssumption M
  have htokens := (c.spelling_eq tokens).trans hspelling
  have heos' := c.token_eos_iff.mpr heos
  obtain ⟨hgrammar, hsound⟩ := prepare_sound hprepare
  rw [← hgrammar] at htable htokens heos' ⊢
  obtain ⟨-, rfl⟩ := Matcher.eq_fresh hmatcher
  obtain ⟨_, -, -, hrun, -⟩ := (Matcher.fresh_invariant hsound rows).run_granting
    (tokens.map (.advance row) ++ [.advance row eos])
  have hfirst : (Matcher.fresh prepared rows).states[row]? =
      some ⟨.running .start, [prepared.grammar.lalr.startState]⟩ := by
    rw [Matcher.fresh, List.getElem?_replicate_of_lt hrow]
    rfl
  obtain ⟨words, hwords, rfl, hne⟩ := ValidatedGrammar.spells_of_spelling htokens
  have hstart : LexerState.start.Valid prepared.grammar.lexer := trivial
  rw [hrun]
  exact (hsound.respondAll_accepted_iff htable hstart ValidatedGrammar.reached_start hfirst
    hwords heos').trans ((LookAhead.exists_feeds_finishes_iff
      (ValidatedGrammar.scanner_late prepared.grammar) hne).trans ValidatedGrammar.accepts_iff)

/-- The compiled grammar of one letter, with a token for the letter and one for the end. -/
def letterPrepared : PreparedGrammar :=
  (compile letterCrates letterSource ⟨[.bytes [97], .eos]⟩ .default true).toOption.get
    (by decide +kernel)

theorem letter_compiled :
    compile letterCrates letterSource ⟨[.bytes [97], .eos]⟩ .default true = .ok letterPrepared :=
  eq_ok_get _ _

theorem letter_matcher : letterPrepared.intoMatcher 1 .granting =
    (.ok (Matcher.fresh letterPrepared 1), .granting) :=
  Matcher.intoMatcher_granting one_ne_zero

/-- A row takes the letter and the end, so the letter is of the language. -/
theorem compiled_language_exact_letter :
    ∃ parsed,
      parseSource letterCrates.yaccNew letterSource CompileLimits.default.maxTerminalSpecs =
        .ok parsed ∧ parsed.Derives LetterMatches [97] := by
  obtain ⟨parsed, hparse, -, h⟩ :=
    compiled_language_exact letterCrates_documented letter_compiled letter_matcher
  exact ⟨parsed, hparse, (h 0 one_pos [0] [97] (by decide +kernel) 1 (by decide +kernel)).mp
    (by decide +kernel)⟩

/-- **In every run an accepted row has read an input of the language.**  Whatever calls are made,
on whatever rows, with whatever failures, a row is accepted just if the tokens committed to it
are ordinary ones whose bytes are of the language, and an EOS token behind them. -/
theorem compiled_runs_accept (hgenerators : generators.Documented Matches Lexeme)
    (h : compile generators source tokenizer limits granted = .ok prepared)
    (hmatcher : prepared.intoMatcher rows memory₀ = (.ok matcher, memory₁)) :
    ∃ parsed,
      parseSource generators.yaccNew source limits.maxTerminalSpecs = .ok parsed ∧
      parsed.Resolved source ∧
      ∀ (memory : Memory) (calls : List Call) (row : ℕ) (status : MatcherStatus),
        (matcher.run memory calls).2.1.states[row]? = some status →
          (status.phase = .accepted ↔ ∃ tokens eos bytes,
            matcher.committed memory row calls = tokens ++ [eos] ∧
            tokenizer.tokens[eos]? = some .eos ∧ tokenizer.spelling tokens = some bytes ∧
              parsed.Derives Matches bytes) := by
  obtain ⟨c, ⟨M⟩, hresolved, hprepare⟩ := compiled_from hgenerators h
  refine ⟨c.parsed, c.parse, hresolved, fun memory calls row status hrow => ?_⟩
  rw [← c.readsEnd_iff hgenerators.formed hgenerators.lexers M]
  obtain ⟨hgrammar, hsound⟩ := prepare_sound hprepare
  rw [← hgrammar]
  obtain ⟨-, rfl⟩ := Matcher.eq_fresh hmatcher
  have hm := Matcher.fresh_invariant hsound rows
  have hlt : row < rows := by
    have hlength := (List.getElem?_eq_some_iff.mp hrow).1
    rw [hm.run_length memory calls] at hlength
    rwa [Matcher.fresh, List.length_replicate] at hlength
  have hfirst : (Matcher.fresh prepared rows).states[row]? = some prepared.initialRow := by
    rw [Matcher.fresh, List.getElem?_replicate_of_lt hlt]
  obtain ⟨status', hrow', hreplays⟩ :=
    hm.run_replays memory calls hfirst ValidatedGrammar.replays_nil
  obtain rfl := Option.some_inj.mp (hrow.symm.trans hrow')
  rw [List.nil_append] at hreplays
  obtain ⟨phase, stack⟩ := status
  cases phase with
  | accepted => exact iff_of_true rfl hreplays
  | running lexer =>
    refine iff_of_false (fun h => by cases h) fun hend => ?_
    -- the tokens of a running row are all ordinary
    obtain ⟨before, token, -, -, -, -, htokens, heos, -⟩ := hend
    obtain ⟨emitted, ⟨bytes, hspelling, -⟩, -⟩ := hreplays
    rw [htokens] at hspelling
    obtain ⟨bytes', hbytes⟩ := ValidatedGrammar.ordinary_of_spelling hspelling
      (List.mem_append_right before (List.mem_singleton_self token))
    have heos' : prepared.grammar.token token = some .eos := heos
    rw [show (Matcher.fresh prepared rows).prepared = prepared from rfl, heos'] at hbytes
    cases hbytes

/-- After the letter and the end the row is accepted, whatever was asked in between. -/
theorem compiled_runs_accept_letter :
    ∃ parsed,
      parseSource letterCrates.yaccNew letterSource CompileLimits.default.maxTerminalSpecs =
        .ok parsed ∧
      ∃ tokens eos bytes,
        (Matcher.fresh letterPrepared 1).committed .granting 0
          [.advance 0 0, .allows 0 0, .advance 0 0, .advance 0 1] = tokens ++ [eos] ∧
        parsed.Derives LetterMatches bytes := by
  obtain ⟨parsed, hparse, -, h⟩ :=
    compiled_runs_accept letterCrates_documented letter_compiled letter_matcher
  obtain ⟨tokens, eos, bytes, hcommitted, -, -, hderives⟩ :=
    (h .granting [.advance 0 0, .allows 0 0, .advance 0 0, .advance 0 1] 0 .empty
      (by decide +kernel)).mp rfl
  exact ⟨parsed, hparse, tokens, eos, bytes, hcommitted, hderives⟩

/-- **On a row that tokens describe, a table that never faults breaks nothing** that a call
executes. -/
theorem not_breaks_of_replays (hsound : prepared.Sound)
    (htable : prepared.grammar.TableAssumption) {status : MatcherStatus} {tokens : List TokenId}
    (hstatus : status.Valid prepared.grammar) (hreplays : prepared.grammar.Replays tokens status)
    {states : List MatcherStatus} {c : Call} {terminals : List TerminalId}
    (hexecutes : prepared.Executes states c status terminals) :
    ¬ prepared.Breaks status.parserStack terminals := by
  obtain ⟨phase, stack⟩ := status
  cases phase with
  | accepted =>
    rcases hexecutes.run with ⟨token, hrun⟩ | hrun <;> cases hrun <;> contradiction
  | running lexer =>
    obtain ⟨emitted, hreads, hexecute⟩ := hreplays
    have hstack : prepared.grammar.Reached stack := ⟨emitted, hreads.emittable,
      (ValidatedGrammar.executeTerminals_continue_iff ValidatedGrammar.validStack_start
        hreads.emittable.valid).mp hexecute⟩
    have hnone : ∀ terminals, prepared.grammar.lalr.ValidTerminals terminals →
        (∀ f, prepared.grammar.lalr.table.parse stack terminals ≠ .fault f) →
          ¬ prepared.Breaks stack terminals := by
      rintro terminals hterminals hfault ⟨error, htablefault, herror⟩
      rw [executeTerminals_eq hstack.validStack hterminals] at herror
      cases hparse : prepared.grammar.lalr.table.parse stack terminals with
      | live stack' =>
        rw [hparse] at herror
        cases herror
      | rejected =>
        rw [hparse] at herror
        cases herror
      | fault f => exact hfault f hparse
      | accepted rest =>
        rw [hparse] at herror
        dsimp only [ValidatedLalr.execution] at herror
        split_ifs at herror
        cases herror
        exact htablefault
    rcases hsound.terminals_of_executes hstatus hexecutes with hhead | ⟨flushed, hflushed, rfl⟩
    · exact hnone _ hhead.valid fun f => (htable.parse_ne_fault hstack hhead f).1
    · exact hnone _ hflushed.snoc_eof fun f => (htable.parse_ne_fault hstack hflushed f).2

theorem call_ne_corrupt (hreachable : matcher.Reachable)
    (htable : matcher.prepared.grammar.TableAssumption)
    (hfits : matcher.states.length * matcher.prepared.maskBytes ≤ usizeMax) (memory : Memory)
    (c : Call) : (matcher.call memory c).1.value ≠ .error .corruptPreparedData := by
  intro hcorrupt
  have hm := hreachable.invariant
  rcases (hm.call_answered memory c).answer with ⟨hrespond, -⟩ | ⟨-, ⟨requested, hrefused⟩, -⟩
  · have hvalue : (matcher.call memory c).1.value =
        (matcher.prepared.respond matcher.states c).1.value :=
      congrArg (fun out => out.1.value) hrespond
    obtain ⟨status, terminals, hexecutes, hbreaks⟩ :=
      hm.sound.executes_of_respond hm.rows hfits (hvalue.symm.trans hcorrupt)
    rcases hexecutes.row with hstatus | ⟨row, before, token, result, hrow, -, hadvance⟩
    · obtain ⟨row, hrow⟩ := List.mem_iff_getElem?.mp hstatus
      obtain ⟨tokens, hreplays⟩ := hreachable.replays hrow
      exact not_breaks_of_replays hm.sound htable (hm.rows _ hstatus) hreplays hexecutes hbreaks
    · obtain ⟨tokens, hreplays⟩ := hreachable.replays hrow
      have hvalid := hm.rows _ (List.mem_of_getElem? hrow)
      exact not_breaks_of_replays hm.sound htable (hm.sound.advanceRow_valid hvalid hadvance)
        (hm.sound.advanceRow_replays hvalid hreplays hadvance) hexecutes hbreaks
  · rw [hrefused] at hcorrupt
    cases hcorrupt

/-- **A compiled matcher never reports corrupt prepared data**, in any run: the parser meets no
fault of the tables that the compiler makes. -/
theorem compiled_never_corrupt (hgenerators : generators.Documented Matches Lexeme)
    (h : compile generators source tokenizer limits granted = .ok prepared)
    (hmatcher : prepared.intoMatcher rows memory₀ = (.ok matcher, memory₁))
    (hfits : rows * prepared.maskBytes ≤ usizeMax) (memory : Memory) (calls : List Call) :
    ∀ reply ∈ (matcher.run memory calls).1, reply.value ≠ .error .corruptPreparedData := by
  obtain ⟨c, ⟨M⟩, -, hprepare⟩ := compiled_from hgenerators h
  have htable := Compilation.tableAssumption M
  rw [← (prepare_sound hprepare).1] at htable
  have hreachable : matcher.Reachable := .fresh hprepare hmatcher
  obtain ⟨-, rfl⟩ := Matcher.eq_fresh hmatcher
  -- the prepared grammar and the number of rows stay what they are
  have key : ∀ (calls : List Call) (memory : Memory) (matcher : Matcher), matcher.Reachable →
      matcher.prepared = prepared → matcher.states.length = rows →
        ∀ reply ∈ (matcher.run memory calls).1, reply.value ≠ .error .corruptPreparedData := by
    intro calls
    induction calls with
    | nil => exact fun _ _ _ _ _ _ hmem => absurd hmem List.not_mem_nil
    | cons c calls ih =>
      intro memory matcher hreachable hprepared hlength reply hmem
      rcases List.mem_cons.mp hmem with rfl | hrest
      · exact call_ne_corrupt hreachable (hprepared ▸ htable)
          (by rw [hlength, hprepared]; exact hfits) memory c
      · have hm := hreachable.invariant
        exact ih _ _ (hreachable.call memory c)
          ((hm.call_answered memory c).prepared.trans hprepared)
          ((hm.run_length memory [c]).trans hlength) reply hrest
  exact key calls memory _ hreachable rfl (by rw [Matcher.fresh, List.length_replicate])

theorem compiled_never_corrupt_letter :
    1 * letterPrepared.maskBytes ≤ usizeMax ∧
      ∀ reply ∈ ((Matcher.fresh letterPrepared 1).run .granting
          [.mask 0 [0], .advance 0 0, .masks [0], .advance 0 0]).1,
        reply.value ≠ .error .corruptPreparedData := by
  have hfits : 1 * letterPrepared.maskBytes ≤ usizeMax := by decide +kernel
  exact ⟨hfits, compiled_never_corrupt letterCrates_documented letter_compiled letter_matcher
    hfits .granting _⟩

end

end GreatGramma
