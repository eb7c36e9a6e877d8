import GreatGramma.Compiler.Tables

/-!
# From the source to the tables that run

A compilation that succeeds has been through all of its stages, and `Compilation` says what each of
them handed on: the parsed grammar, the generated tables, the compiled regexes, and the validated
grammar.  Later files start from it, and do not look at how `compile` is written.

## The parser

The parser is settled here.  What validation lets through is still the copy that `lower_lalr` made,
so the validated table agrees with the generated one but for the ranks (`ValidatedLalr.Implements`).
The generated tables have no ranks and no progress check, and the compiled ranks make the check of
the runtime silent (`Compiler.Progress`); so a run of the one table is a run of the other.

## What the executor answers

`execute_terminals` is given terminals of which some are ignored.  The generated tables come to one
verdict on those that are not, and the executor answers with it: rejection, a stop with the stack
that is left, or acceptance at EOF (`compiled_parser_answers`).  This is for every stack of states,
and not only for those that a run arrives at.  A fault of the tables is a verdict as well, and
reported as its own error.  Behind the EOF that is accepted nothing may stand, not even what is
ignored; where something does, the executor reports an accept before the end.
-/

namespace GreatGramma

open ShiftReduce Traversal

/-! ## The parser that is validated -/

/-- **The parser is the generated one**, with other ranks. -/
structure ValidatedLalr.Implements (lalr : ValidatedLalr) (graph : StateGraph) (table : StateTable)
    (parsed : ParsedGrammar) : Prop where
  stateCount : lalr.stateCount = graph.allStatesLen
  terminalCount : lalr.terminalCount = parsed.yacc.tokensLen
  startState : lalr.startState = table.startState
  eofTerminal : lalr.eofTerminal = parsed.yacc.eofTokenIdx
  ignored : ∀ t, lalr.isIgnored t = some true ↔ t ∈ parsed.ignored
  agrees : lalr.table.Agrees (table.machine graph parsed.yacc) (· < lalr.stateCount)
    (· < lalr.terminalCount)
  ranked : ∀ t < lalr.terminalCount, lalr.table.Ranked (· < lalr.stateCount) t

theorem StateTable.cell_toMove (table : StateTable) (state terminal : ℕ) :
    (table.cell state terminal).toMove.unranked =
      (if terminal ∈ table.stateActions state then (table.action state terminal).toMove
        else .reject).unranked := by
  rw [StateTable.cell]
  split_ifs
  · cases table.action state terminal <;> rfl
  · rfl

section
variable {grammar : UnvalidatedGrammar} {validated : ValidatedGrammar} {graph : StateGraph}
  {table : StateTable} {parsed : ParsedGrammar}

/-- **The moves agree.** -/
theorem LalrTable.CopyOf.move (h : grammar.lalr.CopyOf graph table parsed)
    (hlowered : grammar.lalr.LoweredFrom graph table parsed) (hmirrors : validated.Mirrors grammar)
    {q t : ℕ} (hq : q < graph.allStatesLen) (ht : t < parsed.yacc.tokensLen) :
    (validated.lalr.table.move q t).unranked =
      ((table.machine graph parsed.yacc).move q t).unranked := by
  obtain ⟨action, haction, hmove⟩ := h.actions q hq t ht
  have hcell : validated.lalr.action q t = some action := by
    rw [hmirrors.action, hlowered.dimensions, if_pos ⟨hq, ht⟩]
    exact haction
  rw [ValidatedLalr.move_eq hcell, hmove]
  exact table.cell_toMove q t

theorem LalrTable.LoweredFrom.reduction (hlowered : grammar.lalr.LoweredFrom graph table parsed)
    (hmirrors : validated.Mirrors grammar) {q t p rank : ℕ}
    (hmove : validated.lalr.table.move q t = .reduce p rank) :
    p < parsed.yacc.prodsLen ∧ validated.lalr.production p =
      some ⟨parsed.yacc.prodToRule p, parsed.yacc.prodLen p⟩ := by
  obtain ⟨stored, haction, -⟩ := ValidatedLalr.reduce_mem hmove
  have hlt := validated.lalr.reduce_lt p stored (ValidatedLalr.action_mem haction)
  have hread := hmirrors.production p
  rw [hlowered.productions, YaccGrammar.productions, List.getElem?_map] at hread
  have hp : p < parsed.yacc.prodsLen := by
    by_contra hge
    rw [YaccGrammar.iterPidxs, List.getElem?_eq_none (by rw [List.length_range]; omega)] at hread
    exact absurd (List.getElem?_eq_none_iff.mp hread) (Nat.not_le.mpr hlt)
  rw [YaccGrammar.iterPidxs, List.getElem?_range hp] at hread
  exact ⟨hp, hread⟩

/-- **The gotos agree.** -/
theorem LalrTable.CopyOf.goto (h : grammar.lalr.CopyOf graph table parsed)
    (hlisted : table.Listed graph parsed.yacc) (hformed : parsed.yacc.WellFormed)
    (hlowered : grammar.lalr.LoweredFrom graph table parsed) (hmirrors : validated.Mirrors grammar)
    {q t p rank s : ℕ} (hs : s < graph.allStatesLen)
    (hmove : validated.lalr.table.move q t = .reduce p rank) :
    validated.lalr.table.goto s p = (table.machine graph parsed.yacc).goto s p := by
  obtain ⟨hp, hproduction⟩ := LalrTable.LoweredFrom.reduction hlowered hmirrors hmove
  have hrule := hformed.prodToRule_lt p hp
  obtain ⟨cell, hcell, hiff⟩ := h.gotos s hs _ hrule
  have hgoto : validated.lalr.goto s (parsed.yacc.prodToRule p) = some cell := by
    rw [hmirrors.goto, hlowered.dimensions, if_pos ⟨hs, hrule⟩]
    exact hcell
  show (validated.lalr.production p).bind _ = graph.goto s (parsed.yacc.prodToRule p)
  rw [hproduction, Option.bind_some, hgoto]
  refine Option.ext fun d => ?_
  rw [hlisted.goto_eq_some hs]
  exact Option.join_eq_some_iff.trans ((Option.some_inj).trans (hiff d))

/-- **A validated copy of generated tables implements them.** -/
theorem LalrTable.CopyOf.implements (h : grammar.lalr.CopyOf graph table parsed)
    (hlisted : table.Listed graph parsed.yacc) (hformed : parsed.yacc.WellFormed)
    (hlowered : grammar.lalr.LoweredFrom graph table parsed) (hmirrors : validated.Mirrors grammar)
    (hdimensions : validated.lalr.dimensions = grammar.lalr.dimensions)
    (hstart : validated.lalr.startState = grammar.lalr.startState)
    (heof : validated.lalr.eofTerminal = grammar.lalr.eofTerminal)
    (hranked : ∀ t < validated.lalr.terminalCount,
      validated.lalr.table.Ranked (· < validated.lalr.stateCount) t) :
    validated.lalr.Implements graph table parsed := by
  have hstates : validated.lalr.stateCount = graph.allStatesLen := by
    rw [ValidatedLalr.stateCount, hdimensions, hlowered.dimensions]
  have hterminals : validated.lalr.terminalCount = parsed.yacc.tokensLen := by
    rw [ValidatedLalr.terminalCount, hdimensions, hlowered.dimensions]
  refine ⟨hstates, hterminals, hstart.trans hlowered.startState,
    heof.trans hlowered.eofTerminal, fun t => ?_,
    ⟨fun q t hq ht => ?_, fun q t p rank _ _ hmove => ?_,
      fun q t p rank s _ _ hs hmove => ?_, fun q t d _ _ hmove => ?_,
      fun q t p rank s d _ _ _ _ hgoto => ?_⟩,
    hranked⟩
  · rw [hmirrors.ignored, hlowered.ignored]
  · exact h.move hlowered hmirrors (hstates ▸ hq) (hterminals ▸ ht)
  · obtain ⟨-, hproduction⟩ := LalrTable.LoweredFrom.reduction hlowered hmirrors hmove
    simp only [ValidatedLalr.table, hproduction, Option.map_some, Option.getD_some]
    rfl
  · exact h.goto hlisted hformed hlowered hmirrors (hstates ▸ hs) hmove
  · exact ValidatedLalr.move_shift_lt hmove
  · exact ValidatedLalr.table_goto_lt hgoto

end

/-! ## What the executor answers -/

/-- What `execute_terminals` answers where the terminals that are not ignored come to a
verdict.  Nothing may stand behind the EOF that is accepted, not even what is ignored. -/
def ValidatedLalr.Answers (lalr : ValidatedLalr) (terminals : List TerminalId)
    (verdict : Verdict ParserStateId TerminalId ProductionId)
    (answer : Except ParserError (Option ParserExecution)) : Prop :=
  match verdict with
  | .live stack => answer = .ok (some (.continue stack))
  | .rejected => answer = .ok none
  | .accepted rest =>
    if rest = [] ∧ terminals.getLast? = some lalr.eofTerminal then answer = .ok (some .accepted)
    else ∃ index, answer = .error (.acceptBeforeEnd index)
  | .fault f => answer = .error (lalr.faultError f)

section
variable {lalr : ValidatedLalr} {graph : StateGraph} {table : StateTable} {parsed : ParsedGrammar}
  {stack : List ParserStateId} {terminals : List TerminalId}

/-- The terminals that are not ignored. -/
def ParsedGrammar.kept (parsed : ParsedGrammar) (terminals : List TerminalId) : List TerminalId :=
  terminals.filter fun t => t ∉ parsed.ignored

theorem ValidatedLalr.Implements.kept_eq (h : lalr.Implements graph table parsed)
    (terminals : List TerminalId) :
    parsed.kept terminals = terminals.filter fun t => !lalr.table.skips t := by
  refine List.filter_congr fun t _ => ?_
  have hskip : (lalr.table.skips t = true) ↔ t ∈ parsed.ignored := by
    rw [← h.ignored t]
    exact decide_eq_true_iff
  by_cases hmem : t ∈ parsed.ignored
  · rw [hskip.mpr hmem]
    exact decide_eq_false (not_not.mpr hmem)
  · rw [Bool.eq_false_iff.mpr (mt hskip.mp hmem)]
    exact decide_eq_true hmem

/-- **The parser runs as the generated tables do**, over the terminals that are not ignored. -/
theorem ValidatedLalr.Implements.runs (h : lalr.Implements graph table parsed)
    (hstack : lalr.ValidStack stack) (hterminals : lalr.ValidTerminals terminals) :
    (table.machine graph parsed.yacc).Runs stack (parsed.kept terminals)
      (lalr.table.dropSkips (lalr.table.parse stack terminals)) := by
  have hkept : ∀ t ∈ parsed.kept terminals, t < lalr.terminalCount :=
    fun t ht => hterminals t (List.mem_of_mem_filter ht)
  refine h.agrees.runs hstack.2 hkept ?_
  rw [h.kept_eq terminals, ← Table.parse_filter]
  refine (Table.Ranked.parse_eq_iff (P := (· < lalr.stateCount)) (fun t ht => ?_)
    (fun q t d hmove => move_shift_lt hmove) (fun s p d hgoto => table_goto_lt hgoto)
    (fun t ht => ?_) hstack.2).mp rfl
  · exact h.ranked t (hterminals t (List.mem_of_mem_filter ht))
  · have hkeep := List.of_mem_filter ht
    rwa [Bool.not_eq_true'] at hkeep

theorem ValidatedLalr.dropSkips_accepted {before rest : List TerminalId} :
    (rest.filter fun t => !lalr.table.skips t) = [] ∧
        (before ++ lalr.eofTerminal :: rest).getLast? = some lalr.eofTerminal ↔ rest = [] := by
  constructor
  · rintro ⟨hskipped, hlast⟩
    by_contra hne
    rw [List.getLast?_append_of_ne_nil _ (List.cons_ne_nil _ _),
      List.getLast?_cons_of_ne_nil hne] at hlast
    have hskip := List.filter_eq_nil_iff.mp hskipped _ (List.mem_of_getLast? hlast)
    rw [Bool.not_eq_true', Bool.not_eq_false] at hskip
    have hignored : lalr.isIgnored lalr.eofTerminal = some true := of_decide_eq_true hskip
    rw [lalr.isIgnored_eofTerminal] at hignored
    cases hignored
  · rintro rfl
    exact ⟨rfl, List.getLast?_concat⟩

/-- **The executor answers what the generated tables come to.** -/
theorem ValidatedLalr.Implements.answers {validated : ValidatedGrammar}
    (h : validated.lalr.Implements graph table parsed)
    (hstack : validated.lalr.ValidStack stack)
    (hterminals : validated.lalr.ValidTerminals terminals) :
    ∃ verdict, (table.machine graph parsed.yacc).Runs stack (parsed.kept terminals) verdict ∧
      validated.lalr.Answers terminals verdict
        (executeTerminals validated stack terminals .granting).1 := by
  refine ⟨_, h.runs hstack hterminals, ?_⟩
  rw [executeTerminals_eq hstack hterminals]
  cases hparse : validated.lalr.table.parse stack terminals with
  | live stack' => rfl
  | rejected => rfl
  | fault f => rfl
  | accepted rest =>
    obtain ⟨before, rfl⟩ := parse_accepted hstack hterminals hparse
    simp only [Table.dropSkips, Answers, execution, dropSkips_accepted]
    split_ifs with hrest
    · rfl
    · exact ⟨_, rfl⟩

end

/-! ## Compilations -/

/-- **A compilation**: what the stages handed on, from the source to the validated grammar. -/
structure Compilation {σ ρ StateID : Type} [DecidableEq StateID]
    (generators : Generators σ ρ StateID) (source : SourceGrammar) (tokenizer : TokenizerManifest)
    (limits : CompileLimits) where
  parsed : ParsedGrammar
  graph : StateGraph
  table : StateTable
  compiled : CompiledRegexes ρ StateID
  lexer : LexerDfa
  validated : ValidatedGrammar
  parse : parseSource generators.yaccNew source limits.maxTerminalSpecs = .ok parsed
  generated : generators.fromYacc parsed.yacc = .ok (graph, table)
  conflicts : table.conflicts = none
  regexes : compileRegexes generators.lexers generators.lookSetIsEmpty parsed.terminals
    limits.maxRegexFuel limits.maxRegexOutputBytes = .ok compiled
  exported : buildLexerDfa generators.engine compiled limits.maxDfaStates
    limits.validation.maxDfaCells limits.validation.maxWork.toNat = .ok lexer
  dfa : validated.lexer.dfa = lexer.dfa
  closed : validated.lexer.dfa.Closed
  parser : validated.lalr.Implements graph table parsed
  tokens : ∀ t, validated.token t = (tokenizer.tokens[t]?).map TokenSpec.entry

section
variable {σ ρ StateID : Type} [DecidableEq StateID] {generators : Generators σ ρ StateID}
  {source : SourceGrammar} {tokenizer : TokenizerManifest} {limits : CompileLimits}

/-- The generated tables of a compilation. -/
def Compilation.machine (c : Compilation generators source tokenizer limits) :
    Table ParserStateId TerminalId ProductionId :=
  c.table.machine c.graph c.parsed.yacc

/-- **What is relied on of the generated tables**, for every grammar that is parsed. -/
def Generators.Listed (generators : Generators σ ρ StateID) : Prop :=
  ∀ text yacc graph table, generators.yaccNew text = .ok yacc →
    generators.fromYacc yacc = .ok (graph, table) → table.Listed graph yacc

theorem validated_closed {grammar : UnvalidatedGrammar} {compiled : CompiledRegexes ρ StateID}
    {maximumStates maximumWork : ℕ} {maximumCells : UInt64}
    (hlexer : buildLexerDfa generators.engine compiled maximumStates maximumCells maximumWork =
      .ok grammar.lexer) (hformed : grammar.WellFormed limits.validation) :
    (ValidatedLexer.fromUnvalidated grammar hformed).dfa.Closed := by
  obtain ⟨_, representatives, _, found, -, -, -, -, hpass, -, hclasses, htransitions, -,
    hlabels⟩ := buildLexerDfa_ok hlexer
  rw [← hlabels, ← htransitions] at hpass
  exact ValidatedLexer.dfa_closed hclasses.symm hpass

/-- **A compilation that succeeds has been through its stages.** -/
theorem exists_compilation (hgenerators : generators.WellFormed) (hlisted : generators.Listed)
    {grammar : UnvalidatedGrammar} (h : normalize generators source tokenizer limits = .ok grammar)
    {granted : Bool} {validated : ValidatedGrammar}
    (hvalidated : validate grammar limits.validation granted = .ok validated) :
    ∃ c : Compilation generators source tokenizer limits, c.validated = validated := by
  obtain ⟨tables, ranks, _, _, _, hranks, hlowered⟩ := validate_lowered hgenerators h hvalidated
  obtain ⟨-, hformed, rfl⟩ := validate_eq_ok.mp hvalidated
  rw [normalize] at h
  obtain ⟨_, -, h⟩ := bind_eq_ok.mp h
  obtain ⟨tokens, htokens, h⟩ := bind_eq_ok.mp h
  obtain ⟨parsed, hparsed, h⟩ := bind_eq_ok.mp h
  obtain ⟨lalr, hlalr, h⟩ := bind_eq_ok.mp h
  obtain ⟨compiled, hcompiled, h⟩ := bind_eq_ok.mp h
  obtain ⟨lexer, hlexer, h⟩ := bind_eq_ok.mp h
  obtain rfl := Except.ok.inj h
  obtain ⟨hnew, -⟩ := parseSource_bound hparsed
  have hyacc := hgenerators.yacc _ _ hnew
  obtain ⟨graph, table, hgenerated, hconflicts, hcopy⟩ := lowerLalr_copies
    (fun graph table => hlisted _ _ graph table hnew) hlalr
  obtain ⟨graph', table', hgenerated', hfrom⟩ := lowerLalr_ok
    (fun graph table => hgenerators.tables _ _ graph table hnew) hyacc.eof_lt hlalr
  obtain ⟨rfl, rfl⟩ := Prod.mk.inj (Except.ok.inj (hgenerated.symm.trans hgenerated'))
  have hmirrors := mirrors_fromParts hformed
  refine ⟨⟨parsed, graph, table, compiled, lexer, _, hparsed, hgenerated, hconflicts, hcompiled,
    hlexer, fromUnvalidated_dfa hformed, validated_closed hlexer hformed,
    hcopy.implements (hlisted _ _ graph table hnew hgenerated) hyacc hfrom hmirrors rfl rfl rfl
      fun t ht => hlowered.ranked hranks ht, fun t => ?_⟩, rfl⟩
  rw [hmirrors.token, (normalizeManifest_ok htokens).1, List.getElem?_map]

/-- **The compiled parser answers what the generated tables come to.**  Whatever stack of states
it starts from, the generated tables come to one verdict on the terminals that are not ignored,
and `execute_terminals` answers with it. -/
theorem compiled_parser_answers (hgenerators : generators.WellFormed)
    (hlisted : generators.Listed) {grammar : UnvalidatedGrammar}
    (h : normalize generators source tokenizer limits = .ok grammar) {granted : Bool}
    {validated : ValidatedGrammar}
    (hvalidated : validate grammar limits.validation granted = .ok validated) :
    ∃ parsed graph table,
      parseSource generators.yaccNew source limits.maxTerminalSpecs = .ok parsed ∧
      generators.fromYacc parsed.yacc = .ok (graph, table) ∧ table.conflicts = none ∧
      ∀ stack, validated.lalr.ValidStack stack →
      ∀ terminals, validated.lalr.ValidTerminals terminals →
        (∃ verdict,
          (table.machine graph parsed.yacc).Runs stack (parsed.kept terminals) verdict) ∧
        ∀ verdict, (table.machine graph parsed.yacc).Runs stack (parsed.kept terminals) verdict →
          validated.lalr.Answers terminals verdict
            (executeTerminals validated stack terminals .granting).1 := by
  obtain ⟨c, rfl⟩ := exists_compilation hgenerators hlisted h hvalidated
  refine ⟨c.parsed, c.graph, c.table, c.parse, c.generated, c.conflicts,
    fun stack hstack terminals hterminals => ?_⟩
  obtain ⟨verdict, hruns, hanswers⟩ := c.parser.answers hstack hterminals
  exact ⟨⟨verdict, hruns⟩, fun verdict' hruns' => hruns'.unique hruns ▸ hanswers⟩

end

/-! ## The grammar of one letter -/

theorem letterGenerators_listed : letterGenerators.Listed := by
  intro text yacc graph table hyacc htable
  obtain ⟨rfl, rfl⟩ := Prod.mk.inj (Except.ok.inj htable)
  obtain rfl : letterGrammar = yacc := (ite_ok_eq_ok.mp hyacc).2
  have hstates : ∀ state < letterGraph.allStatesLen, state = 0 ∨ state = 1 ∨ state = 2 := by
    intro state hstate
    have hlt : state < 3 := hstate
    omega
  refine ⟨fun state hstate t ht => ?_, fun state hstate rule d hedge => ?_,
    fun state hstate rule d d' hedge hedge' => ?_⟩
  · rcases hstates state hstate with rfl | rfl | rfl <;>
      rw [List.mem_singleton.mp ht] <;> decide
  · rcases hstates state hstate with rfl | rfl | rfl
    · rcases List.mem_cons.mp hedge with heq | hrest
      · rw [GrammarSymbol.rule.inj (Prod.mk.inj heq).1]
        decide
      · cases (Prod.mk.inj (List.mem_singleton.mp hrest)).1
    · cases hedge
    · cases hedge
  · rcases hstates state hstate with rfl | rfl | rfl
    · rcases List.mem_cons.mp hedge with heq | hrest
      · rcases List.mem_cons.mp hedge' with heq' | hrest'
        · rw [(Prod.mk.inj heq).2, (Prod.mk.inj heq').2]
        · cases (Prod.mk.inj (List.mem_singleton.mp hrest')).1
      · cases (Prod.mk.inj (List.mem_singleton.mp hrest)).1
    · cases hedge
    · cases hedge

/-- The tables of that grammar, before validation. -/
def letterTables : UnvalidatedGrammar :=
  (normalize letterGenerators letterSource ⟨[.bytes [97], .eos]⟩ .default).toOption.get
    (by decide +kernel)

/-- And after it. -/
def letterValidated : ValidatedGrammar :=
  (validate letterTables CompileLimits.default.validation true).toOption.get (by decide +kernel)

theorem letter_normalized :
    normalize letterGenerators letterSource ⟨[.bytes [97], .eos]⟩ .default = .ok letterTables :=
  eq_ok_get _ _

theorem letter_validated :
    validate letterTables CompileLimits.default.validation true = .ok letterValidated :=
  eq_ok_get _ _

/-- The letter and the end, from the start state. -/
theorem compiled_parser_answers_letter :
    ∃ (parsed : ParsedGrammar) (graph : StateGraph) (table : StateTable)
      (verdict : Verdict ParserStateId TerminalId ProductionId),
      parseSource letterGenerators.yaccNew letterSource CompileLimits.default.maxTerminalSpecs =
        .ok parsed ∧
      (table.machine graph parsed.yacc).Runs [0] (parsed.kept [0, 1]) verdict ∧
      letterValidated.lalr.Answers [0, 1] verdict
        (executeTerminals letterValidated [0] [0, 1] .granting).1 := by
  obtain ⟨parsed, graph, table, hparse, -, -, h⟩ := compiled_parser_answers
    letterGenerators_wellFormed letterGenerators_listed letter_normalized letter_validated
  have hterminals : letterValidated.lalr.ValidTerminals [0, 1] := by
    unfold ValidatedLalr.ValidTerminals
    decide +kernel
  obtain ⟨⟨verdict, hruns⟩, hanswers⟩ := h [0] (by decide +kernel) [0, 1] hterminals
  exact ⟨parsed, graph, table, verdict, hparse, hruns, hanswers verdict hruns⟩

end GreatGramma
