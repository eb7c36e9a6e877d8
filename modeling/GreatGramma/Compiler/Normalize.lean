import GreatGramma.Compiler.Lower
import GreatGramma.Compiler.Progress
import GreatGramma.Compiler.Regexes
import GreatGramma.Compiler.Simulation
import GreatGramma.Compiler.TokenizerJson
import GreatGramma.Validation.Resources

/-!
# The compiler

`compile.rs`, and `normalize_manifest` of `tokenizer.rs`.  `normalize` runs the stages one after
the other: the manifest gives the tokens, the source gives a grammar bound to its terminals, and
from that come the parser tables and the lexer.

## Compiler output passes validation

The stages are written apart from each other and from `validate`, which checks their tables as it
checks those of any caller.  They agree: what `normalize` returns is sound (`normalize_sound`), so
validation of it fails for want of resources, if it fails (`normalize_validates`).

Most of what is checked concerns one table, and the stage that made it has established it.  Three
checks join two of them.  The parser and the lexer share their terminals through the tokens of the
grammar: the labels of the lexer are terminals of the source, those are named tokens, and EOF has
no name.  The ignored terminals are named tokens as well, so EOF is none of them.  And the tokens of
the manifest are none of them empty, with an EOS token among them and an ordinary one.

## Parameters

The crates that the compiler calls are parameters, with what is relied on of each stated with its
stage (`Generators.WellFormed`).  The allocator's answers are parameters where an error of the
source names them: the reservation of `normalize_manifest` and the one of `validate`.
-/

namespace GreatGramma

open Traversal

/-! ## Limits -/

/-- Resource limits for compiler-owned outputs and core validation/preparation. -/
structure CompileLimits where
  validation : ValidationLimits
  preparation : PreparationLimits
  maxSourceBytes : ℕ
  maxTerminalSpecs : ℕ
  maxIgnoredTerminals : ℕ
  maxRegexBytes : ℕ
  maxRegexOutputBytes : ℕ
  maxDfaStates : ℕ
  maxRegexFuel : ℕ

/-- `CompileLimits::default`. -/
def CompileLimits.default : CompileLimits where
  validation := .default
  preparation := ⟨64000000, 1000000000⟩
  maxSourceBytes := 64 * 1024 * 1024
  maxTerminalSpecs := 65536
  maxIgnoredTerminals := 65536
  maxRegexBytes := 16 * 1024 * 1024
  maxRegexOutputBytes := 256 * 1024 * 1024
  maxDfaStates := 100000
  maxRegexFuel := 1000000

/-- `check_source_limits`. -/
def checkSourceLimits (source : SourceGrammar) (limits : CompileLimits) :
    Except CompileFailure Unit :=
  if source.terminals.length > limits.maxTerminalSpecs then
    .error (.error (.tooManyTerminalSpecs source.terminals.length limits.maxTerminalSpecs))
  else if source.ignoredTerminals.length > limits.maxIgnoredTerminals then
    .error (.error
      (.tooManyIgnoredTerminals source.ignoredTerminals.length limits.maxIgnoredTerminals))
  else
    let sourceBytes := source.terminals.foldl
      (fun bytes terminal => saturatingAdd (saturatingAdd bytes terminal.name.utf8ByteSize)
        terminal.pattern.utf8ByteSize) source.yacc.utf8ByteSize
    let regexBytes := source.terminals.foldl
      (fun bytes terminal => saturatingAdd bytes terminal.pattern.utf8ByteSize) 0
    let sourceBytes := source.ignoredTerminals.foldl
      (fun bytes ignored => saturatingAdd bytes ignored.utf8ByteSize) sourceBytes
    if sourceBytes > limits.maxSourceBytes then
      .error (.error (.sourceTooLarge sourceBytes limits.maxSourceBytes))
    else if regexBytes > limits.maxRegexBytes then
      .error (.error (.regexSourceTooLarge regexBytes limits.maxRegexBytes))
    else .ok ()

/-! ## The manifest -/

/-- `check_validation_limit`. -/
def checkValidationLimit (limit : LimitKind) (actual : ℕ) (maximum : UInt64) :
    Except CompileFailure Unit :=
  if actual > maximum.toNat then
    .error (.error (.validation (.limitExceeded limit actual maximum)))
  else .ok ()

/-- A length as a `u64`. -/
def lengthAsU64 (length : ℕ) : ℕ := min length (2 ^ 64 - 1)

/-- The table entry of a token of a manifest. -/
def TokenSpec.entry : TokenSpec → TokenEntry
  | .bytes content => .bytes content
  | .eos => .eos

/-- The token table while it is filled. -/
structure NormalizedTokens where
  hasOrdinary : Bool
  hasEos : Bool
  output : List TokenEntry

/-- One token of the loop of `normalize_manifest`. -/
def normalizeToken (state : NormalizedTokens) (token : TokenSpec × ℕ) :
    Except CompileFailure NormalizedTokens :=
  match token with
  | (.bytes bytes, index) =>
    if bytes.isEmpty then .error (.error (.tokenizer (.emptyOrdinaryToken index)))
    else .ok { state with hasOrdinary := true, output := state.output ++ [.bytes bytes] }
  | (.eos, _) => .ok { state with hasEos := true, output := state.output ++ [.eos] }

/-- `try_reserve_exact`, with the allocator's answer. -/
def tryReserveExact (requested : ℕ) (granted : Bool) : Except CompileFailure Unit :=
  if granted then .ok () else .error (.error (.allocationFailure requested))

/-- `normalize_manifest`, with the allocator's answer to its reservation. -/
def normalizeManifest (manifest : TokenizerManifest) (limits : ValidationLimits) (granted : Bool) :
    Except CompileFailure (List TokenEntry) :=
  if manifest.tokens.isEmpty then .error (.error (.tokenizer .emptyManifest))
  else do
    checkValidationLimit .tokens (lengthAsU64 manifest.tokens.length) limits.maxTokens
    let tokenBytes := manifest.tokens.foldl
      (fun total token => saturatingAdd total (lengthAsU64 token.entry.byteCount)) 0
    checkValidationLimit .tokenBytes tokenBytes limits.maxTokenBytes
    tryReserveExact manifest.tokens.length granted
    let state ← manifest.tokens.zipIdx.foldlM normalizeToken ⟨false, false, []⟩
    if !state.hasOrdinary then throw (.error (.tokenizer .missingOrdinaryToken))
    else if !state.hasEos then throw (.error (.tokenizer .missingEos))
    else return state.output

/-! ## The stages -/

/-- The crates that the compiler calls: `cfgrammar`, `lrtable`, `regex-syntax`, and the lexer
specifications and regex vectors of `llguidance`. -/
structure Generators (σ ρ StateID : Type) where
  yaccNew : String → Except (List String) YaccGrammar
  fromYacc : TableGenerator
  lookSetIsEmpty : String → Option Bool
  lexers : LexerSpec σ ρ StateID
  engine : RegexVec ρ StateID

section
variable {σ ρ StateID : Type}

/-- `normalize`, its reservations being granted. -/
def normalize [BEq StateID] (generators : Generators σ ρ StateID) (source : SourceGrammar)
    (tokenizer : TokenizerManifest) (limits : CompileLimits) :
    Except CompileFailure UnvalidatedGrammar := do
  checkSourceLimits source limits
  let tokens ← normalizeManifest tokenizer limits.validation true
  let parsed ← parseSource generators.yaccNew source limits.maxTerminalSpecs
  let lalr ← lowerLalr generators.fromYacc parsed limits.validation
  let compiled ← compileRegexes generators.lexers generators.lookSetIsEmpty parsed.terminals
    limits.maxRegexFuel limits.maxRegexOutputBytes
  let lexer ← buildLexerDfa generators.engine compiled limits.maxDfaStates
    limits.validation.maxDfaCells limits.validation.maxWork.toNat
  return { tokens, lexer, lalr }

/-- `compile`, with the allocator's answer to the reservation of `validate`. -/
def compile [BEq StateID] (generators : Generators σ ρ StateID) (source : SourceGrammar)
    (tokenizer : TokenizerManifest) (limits : CompileLimits) (granted : Bool) :
    Except CompileFailure PreparedGrammar := do
  let grammar ← normalize generators source tokenizer limits
  let validated ← (validate grammar limits.validation granted).mapError fun error =>
    .error (.validation error)
  (prepare validated limits.preparation).mapError fun error => .error (.preparation error)

end

/-! ## The tokens -/

/-- The loop of `normalize_manifest` after the tokens `done`. -/
structure NormalizedTokens.Holds (done : List TokenSpec) (state : NormalizedTokens) : Prop where
  output : state.output = done.map TokenSpec.entry
  nonempty : TokenEntry.bytes [] ∉ state.output
  ordinary : state.hasOrdinary = true → ∃ bytes, TokenEntry.bytes bytes ∈ state.output
  eos : state.hasEos = true → TokenEntry.eos ∈ state.output

theorem normalizeToken_holds {done : List TokenSpec} {state state' : NormalizedTokens}
    {token : TokenSpec × ℕ} (h : state.Holds done)
    (hstep : normalizeToken state token = .ok state') : state'.Holds (done ++ [token.1]) := by
  obtain ⟨token, index⟩ := token
  cases token with
  | bytes bytes =>
    obtain ⟨hne, hstep⟩ := ite_error_eq_ok.mp hstep
    obtain rfl := Except.ok.inj hstep
    refine ⟨?_, fun hmem => ?_, fun _ => ⟨bytes, ?_⟩, fun heos => ?_⟩
    · rw [List.map_append, h.output]
      rfl
    · rcases List.mem_append.mp hmem with hold | hnew
      · exact h.nonempty hold
      · rw [← TokenEntry.bytes.inj (List.mem_singleton.mp hnew)] at hne
        exact hne rfl
    · exact List.mem_append_right _ (List.mem_singleton_self _)
    · exact List.mem_append_left _ (h.eos heos)
  | eos =>
    obtain rfl := Except.ok.inj hstep
    refine ⟨?_, fun hmem => ?_, fun hordinary => ?_, fun _ => ?_⟩
    · rw [List.map_append, h.output]
      rfl
    · rcases List.mem_append.mp hmem with hold | hnew
      · exact h.nonempty hold
      · cases List.mem_singleton.mp hnew
    · obtain ⟨bytes, hbytes⟩ := h.ordinary hordinary
      exact ⟨bytes, List.mem_append_left _ hbytes⟩
    · exact List.mem_append_right _ (List.mem_singleton_self _)

/-- **What `normalize_manifest` returns**: the tokens of the manifest, of either kind and none
of them empty. -/
theorem normalizeManifest_ok {manifest : TokenizerManifest} {limits : ValidationLimits}
    {granted : Bool} {tokens : List TokenEntry}
    (h : normalizeManifest manifest limits granted = .ok tokens) :
    tokens = manifest.tokens.map TokenSpec.entry ∧ TokenEntry.bytes [] ∉ tokens ∧
      (∃ bytes, TokenEntry.bytes bytes ∈ tokens) ∧ TokenEntry.eos ∈ tokens := by
  rw [normalizeManifest] at h
  obtain ⟨-, h⟩ := ite_error_eq_ok.mp h
  obtain ⟨_, -, h⟩ := bind_eq_ok.mp h
  obtain ⟨_, -, h⟩ := bind_eq_ok.mp h
  obtain ⟨_, -, h⟩ := bind_eq_ok.mp h
  obtain ⟨state, hloop, h⟩ := bind_eq_ok.mp h
  obtain ⟨hordinary, h⟩ := ite_error_eq_ok.mp h
  obtain ⟨heos, h⟩ := ite_error_eq_ok.mp h
  obtain rfl := Except.ok.inj h
  have hholds : state.Holds (manifest.tokens.zipIdx.map Prod.fst) := by
    refine foldlM_ok (I := fun done (state : NormalizedTokens) => state.Holds (done.map Prod.fst))
      hloop ?_ ?_
    · exact ⟨rfl, List.not_mem_nil, fun h => absurd h Bool.false_ne_true,
        fun h => absurd h Bool.false_ne_true⟩
    · intro done token after s s' _ hs hstep
      rw [List.map_append]
      exact normalizeToken_holds hs hstep
  rw [List.zipIdx_map_fst] at hholds
  rw [Bool.not_eq_true', Bool.not_eq_false] at hordinary heos
  exact ⟨hholds.output, hholds.nonempty, hholds.ordinary hordinary, hholds.eos heos⟩

/-! ## The tables fit together

What the stages hand on, in the terms that `validate` checks. -/

section
variable {σ ρ StateID : Type} {generators : Generators σ ρ StateID}

/-- **Well-formed generators.** -/
structure Generators.WellFormed (generators : Generators σ ρ StateID) : Prop where
  yacc : ∀ text yacc, generators.yaccNew text = .ok yacc → yacc.WellFormed
  tables : ∀ text yacc graph table, generators.yaccNew text = .ok yacc →
    generators.fromYacc yacc = .ok (graph, table) → table.WellFormed graph yacc
  lexers : generators.lexers.WellFormed generators.engine

theorem start_unlabelled [DecidableEq StateID]
    (hlexers : generators.lexers.WellFormed generators.engine)
    {terminals : List ResolvedTerminal} {compiled : CompiledRegexes ρ StateID}
    {maxFuel maxOutputBytes maximumStates maximumWork : ℕ} {maximumCells : UInt64}
    (hcompiled : compileRegexes generators.lexers generators.lookSetIsEmpty terminals maxFuel
      maxOutputBytes = .ok compiled) {lexer : LexerDfa}
    (hlexer : buildLexerDfa generators.engine compiled maximumStates maximumCells maximumWork =
      .ok lexer) (t : TerminalId) : lexer.terminals[lexer.startState]? ≠ some (some t) := by
  obtain ⟨hshaped, states, work, label, hresolve, hfirst⟩ := buildLexerDfa_shaped hlexer
  rw [(compileRegexes_ok hlexers hcompiled).2] at hresolve
  obtain rfl : none = label := (Prod.mk.inj (Except.ok.inj hresolve)).2
  rw [hshaped.start, hfirst]
  exact fun h => by cases h

/-- **A grammar as the stages put it together**: the parser tables are those of a parsed
grammar, the lexer is in shape, and its labels are named tokens, as the ignored terminals
are. -/
structure UnvalidatedGrammar.AssembledFrom (grammar : UnvalidatedGrammar) (parsed : ParsedGrammar)
    (graph : StateGraph) (table : StateTable) (aliases : List (Option TerminalMeta)) : Prop where
  grammar_formed : parsed.yacc.WellFormed
  table_formed : table.WellFormed graph parsed.yacc
  lowered : grammar.lalr.LoweredFrom graph table parsed
  lexer : grammar.lexer.Shaped aliases
  start : ∀ t, grammar.lexer.terminals[grammar.lexer.startState]? ≠ some (some t)
  labels : ∀ t, some t ∈ grammar.lexer.terminals → t ∈ parsed.yacc.namedTokens
  ignored : ∀ t ∈ parsed.ignored, t ∈ parsed.yacc.namedTokens

/-- **What `normalize` returns** has the tokens of the manifest, and is put together so. -/
theorem normalize_ok [DecidableEq StateID] (hgenerators : generators.WellFormed)
    {source : SourceGrammar} {tokenizer : TokenizerManifest} {limits : CompileLimits}
    {grammar : UnvalidatedGrammar}
    (h : normalize generators source tokenizer limits = .ok grammar) :
    grammar.TokensFormed ∧ ∃ parsed graph table aliases,
      grammar.AssembledFrom parsed graph table aliases := by
  rw [normalize] at h
  obtain ⟨_, -, h⟩ := bind_eq_ok.mp h
  obtain ⟨tokens, htokens, h⟩ := bind_eq_ok.mp h
  obtain ⟨parsed, hparsed, h⟩ := bind_eq_ok.mp h
  obtain ⟨lalr, hlalr, h⟩ := bind_eq_ok.mp h
  obtain ⟨compiled, hcompiled, h⟩ := bind_eq_ok.mp h
  obtain ⟨lexer, hlexer, h⟩ := bind_eq_ok.mp h
  obtain rfl := Except.ok.inj h
  obtain ⟨-, hnonempty, hordinary, heos⟩ := normalizeManifest_ok htokens
  obtain ⟨hnew, hbound⟩ := parseSource_bound hparsed
  have hyacc := hgenerators.yacc _ _ hnew
  obtain ⟨graph, table, hgenerated, hlowered⟩ := lowerLalr_ok
    (fun graph table => hgenerators.tables _ _ graph table hnew) hyacc.eof_lt hlalr
  have hshaped := (buildLexerDfa_shaped hlexer).1
  refine ⟨⟨hordinary, heos, hnonempty⟩, parsed, graph, table, compiled.aliases, hyacc,
    hgenerators.tables _ _ _ _ hnew hgenerated, hlowered, hshaped,
    start_unlabelled hgenerators.lexers hcompiled hlexer, fun t ht => ?_,
    fun t ht => hbound.ignored_named ht⟩
  -- a label is the terminal of an alias, and those are the terminals that were compiled
  obtain ⟨terminal, hmem, rfl⟩ := hshaped.terminals_mem t ht
  rw [← hbound.terminals]
  exact (compileRegexes_ok hgenerators.lexers hcompiled).1 terminal hmem

namespace UnvalidatedGrammar.AssembledFrom

variable {grammar : UnvalidatedGrammar} {parsed : ParsedGrammar} {graph : StateGraph}
  {table : StateTable} {aliases : List (Option TerminalMeta)}

theorem shaped (h : grammar.AssembledFrom parsed graph table aliases) : grammar.Shaped := by
  refine ⟨h.lexer.byteClasses, h.lexer.transitions, h.lexer.terminals, ?_, ?_⟩
  · rw [UnvalidatedGrammar.actionCells, h.lowered.dimensions, h.lowered.actions.1]
  · rw [UnvalidatedGrammar.gotoCells, h.lowered.dimensions, h.lowered.gotos.1]

theorem exists_cellAllowed (h : grammar.AssembledFrom parsed graph table aliases)
    {action : Action} (haction : action ∈ grammar.lalr.actions) :
    ∃ cell, CellAllowed graph parsed.yacc cell action := by
  obtain ⟨cell, hcell⟩ := List.mem_iff_getElem?.mp haction
  exact ⟨cell, h.lowered.actions.2 cell _ hcell⟩

theorem inRange (h : grammar.AssembledFrom parsed graph table aliases) : grammar.InRange := by
  have hnamed : ∀ t ∈ parsed.yacc.namedTokens, t < grammar.lalr.dimensions.terminalCount := by
    intro t ht
    rw [h.lowered.dimensions]
    exact (YaccGrammar.mem_namedTokens.mp ht).1
  refine ⟨h.lexer.start ▸ h.lexer.start_lt, ?_, ?_, h.lexer.byteClasses_lt, h.lexer.transitions_lt,
    fun t ht => hnamed t (h.labels t ht), fun d hd => ?_, fun p rank hp => ?_, fun d hd => ?_,
    fun p hp => ?_, fun t ht => hnamed t (h.ignored t (h.lowered.ignored ▸ ht))⟩
  · rw [h.lowered.startState, h.lowered.dimensions]
    exact h.table_formed.start_lt
  · rw [h.lowered.eofTerminal, h.lowered.dimensions]
    exact h.grammar_formed.eof_lt
  · obtain ⟨_, hallowed⟩ := h.exists_cellAllowed hd
    rw [h.lowered.dimensions]
    exact hallowed
  · obtain ⟨_, hallowed⟩ := h.exists_cellAllowed hp
    rw [h.lowered.productions, YaccGrammar.productions, List.length_map, YaccGrammar.iterPidxs,
      List.length_range]
    exact hallowed
  · obtain ⟨cell, hcell⟩ := List.mem_iff_getElem?.mp hd
    rw [h.lowered.dimensions]
    exact h.lowered.gotos.2 cell _ hcell d rfl
  · rw [h.lowered.productions] at hp
    obtain ⟨production, hproduction, rfl⟩ := List.mem_map.mp hp
    rw [h.lowered.dimensions]
    exact h.grammar_formed.prodToRule_lt production (List.mem_range.mp hproduction)

theorem separated (h : grammar.AssembledFrom parsed graph table aliases) :
    grammar.Separated := by
  refine ⟨h.start, fun ht => ?_, fun ht => ?_, fun cell hcell => ?_⟩
  · rw [h.lowered.eofTerminal] at ht
    exact h.grammar_formed.eof_notMem (h.labels _ ht)
  · rw [h.lowered.eofTerminal, h.lowered.ignored] at ht
    exact h.grammar_formed.eof_notMem (h.ignored _ ht)
  · rw [h.lowered.dimensions, h.lowered.eofTerminal]
    exact h.lowered.actions.2 cell _ hcell

end UnvalidatedGrammar.AssembledFrom

/-- **What `normalize` returns is sound.** -/
theorem normalize_sound [DecidableEq StateID] (hgenerators : generators.WellFormed)
    {source : SourceGrammar} {tokenizer : TokenizerManifest} {limits : CompileLimits}
    {grammar : UnvalidatedGrammar}
    (h : normalize generators source tokenizer limits = .ok grammar) : grammar.Sound := by
  obtain ⟨htokens, _, _, _, _, hassembled⟩ := normalize_ok hgenerators h
  exact ⟨htokens, hassembled.shaped, hassembled.inRange, hassembled.separated⟩

/-- **The parser of a validated grammar is the one that was lowered**, with the ranks that were
computed for it. -/
theorem validate_lowered [DecidableEq StateID] (hgenerators : generators.WellFormed)
    {source : SourceGrammar} {tokenizer : TokenizerManifest} {limits : CompileLimits}
    {grammar : UnvalidatedGrammar}
    (h : normalize generators source tokenizer limits = .ok grammar) {granted : Bool}
    {validated : ValidatedGrammar}
    (hvalidated : validate grammar limits.validation granted = .ok validated) :
    ∃ tables ranks work work' maximumWork,
      reductionRanks tables work maximumWork = .ok (work', ranks) ∧
        Lowered tables ranks validated.lalr := by
  obtain ⟨-, parsed, graph, table, _, hassembled⟩ := normalize_ok hgenerators h
  obtain ⟨lowered, ranks, work, maximumWork, hranks, hstore, hgotos⟩ := hassembled.lowered.ranked
  obtain ⟨-, _, rfl⟩ := validate_eq_ok.mp hvalidated
  refine ⟨lowered.rankTables graph parsed.yacc, ranks, _, work, maximumWork, hranks, hstore,
    hgotos.symm, hassembled.lowered.productions, ?_, ?_, ?_⟩
  · show grammar.lalr.dimensions.stateCount = _
    rw [hassembled.lowered.dimensions]
    rfl
  · show grammar.lalr.dimensions.terminalCount = _
    rw [hassembled.lowered.dimensions]
    rfl
  · show grammar.lalr.dimensions.nonterminalCount = _
    rw [hassembled.lowered.dimensions]
    rfl

/-- **Compiler output passes structural validation.**  Whatever the source, the manifest and
the limits, `validate` accepts a grammar that `normalize` has returned, or runs out of a
resource. -/
theorem normalize_validates [DecidableEq StateID] (hgenerators : generators.WellFormed)
    {source : SourceGrammar} {tokenizer : TokenizerManifest} {limits : CompileLimits}
    {grammar : UnvalidatedGrammar}
    (h : normalize generators source tokenizer limits = .ok grammar) (granted : Bool) :
    (∃ validated, validate grammar limits.validation granted = .ok validated) ∨
      ∃ error, validate grammar limits.validation granted = .error error ∧ error.IsResource :=
  (validate_confined (normalize_sound hgenerators h) limits.validation granted).cases

end

/-- The source of the grammar `S: A`, where `A` is the letter `a`. -/
def letterSource : SourceGrammar where
  yacc := "%start S\n%token A\n%%\nS: A;\n"
  terminals := [⟨"A", "a", 0⟩]
  ignoredTerminals := []

theorem letterCount_lt : 2 < 2 ^ 32 := by
  decide

/-- That grammar, parsed: the tokens are `A` and EOF, and a rule is added for the start. -/
def letterGrammar : YaccGrammar where
  tokensLen := 2
  rulesLen := 2
  prodsLen := 2
  eofTokenIdx := 1
  tokenName token := if token = 0 then some "A" else none
  prod production := if production = 0 then [.token 0] else [.rule 1]
  prodToRule production := if production = 0 then 1 else 0
  prodLen _ := 1
  startProd := 1
  hasAction _ := false
  hasActiontype _ := false
  hasParseParam := false
  hasParseGenerics := false
  hasPrograms := false
  hasExpect := false
  hasExpectrr := false
  avoidInsert _ := false
  hasTokenPrecedence _ := false
  hasProdPrecedence _ := false
  tokensLen_lt := letterCount_lt
  rulesLen_lt := letterCount_lt

def letterGraph : StateGraph where
  allStatesLen := 3
  edges state := if state = 0 then [(.rule 1, 1), (.token 0, 2)] else []
  allStatesLen_lt := by decide

def letterTable : StateTable where
  startState := 0
  stateActions state := if state = 0 then [0] else [1]
  action state _ := if state = 0 then .shift 2 else if state = 1 then .accept else .reduce 0
  conflicts := none

/-- The generators, as they answer for that source.  The first lexeme is the class of what is
skipped, and the letter is the second. -/
def letterGenerators : Generators (List String) Unit (Fin 3) where
  yaccNew text := if text = letterSource.yacc then .ok letterGrammar else .error []
  fromYacc _ := .ok (letterGraph, letterTable)
  lookSetIsEmpty _ := some true
  lexers :=
    { new := .ok []
      setupLexemeClass spec := .ok ("" :: spec)
      cost _ := 1
      lexemesLen := List.length
      addGreedyLexeme spec _ pattern :=
        if pattern = "a" then .ok (spec ++ [pattern], spec.length) else .error pattern
      isNullable _ _ := false
      toRegexVec _ _ := .ok ()
      totalFuelSpent _ := 1
      initialState _ _ := ((), letterCompiled.start)
      possible _ state := if state.val = 2 then [] else [1] }
  engine :=
    { letterEngine with greedyAccepting := fun _ state => if state.val = 1 then [1] else [] }

theorem letterTable_wellFormed : letterTable.WellFormed letterGraph letterGrammar := by
  have hstates : ∀ state < letterGraph.allStatesLen, state = 0 ∨ state = 1 ∨ state = 2 := by
    intro state hstate
    have hlt : state < 3 := hstate
    omega
  refine ⟨by decide, ?_, ?_, ?_, ?_⟩
  · intro state hstate _ _ destination haction
    rcases hstates state hstate with rfl | rfl | rfl
    · rw [← LrAction.shift.inj (show LrAction.shift 2 = .shift destination from haction)]
      decide
    · cases haction
    · cases haction
  · intro state hstate _ _ production haction
    rcases hstates state hstate with rfl | rfl | rfl
    · cases haction
    · cases haction
    · rw [← LrAction.reduce.inj (show LrAction.reduce 0 = .reduce production from haction)]
      decide
  · intro state hstate terminal hterminal haction
    rcases hstates state hstate with rfl | rfl | rfl
    · cases haction
    · exact List.mem_singleton.mp hterminal
    · cases haction
  · intro state hstate rule destination hedge
    rcases hstates state hstate with rfl | rfl | rfl
    · rcases List.mem_cons.mp hedge with heq | hrest
      · rw [(Prod.mk.inj heq).2]
        decide
      · cases (Prod.mk.inj (List.mem_singleton.mp hrest)).1
    · cases hedge
    · cases hedge

theorem letterGenerators_wellFormed : letterGenerators.WellFormed := by
  have hgrammar : ∀ text yacc, letterGenerators.yaccNew text = .ok yacc → letterGrammar = yacc :=
    fun _ _ h => (ite_ok_eq_ok.mp h).2
  refine ⟨fun text yacc h => ?_, fun text yacc graph table h htable => ?_, ?_⟩
  · rw [← hgrammar text yacc h]
    exact ⟨by decide, rfl, by decide⟩
  · obtain ⟨rfl, rfl⟩ := Prod.mk.inj (Except.ok.inj htable)
    rw [← hgrammar text yacc h]
    exact letterTable_wellFormed
  · refine ⟨fun spec name pattern spec' index h => ?_, fun _ _ _ _ _ _ _ _ => rfl,
      fun _ _ _ _ _ _ => rfl, fun _ _ _ => rfl, fun _ _ _ => rfl⟩
    obtain ⟨-, heq⟩ := ite_ok_eq_ok.mp h
    obtain ⟨rfl, rfl⟩ := Prod.mk.inj heq
    show spec.length ≤ (spec ++ [pattern]).length ∧ spec.length < (spec ++ [pattern]).length
    rw [List.length_append, List.length_singleton]
    omega

theorem normalize_validates_letter :
    ∃ grammar, normalize letterGenerators letterSource ⟨[.bytes [97], .eos]⟩ .default =
        .ok grammar ∧
      ((∃ validated, validate grammar .default true = .ok validated) ∨
        ∃ error, validate grammar .default true = .error error ∧ error.IsResource) := by
  have hsome : (normalize letterGenerators letterSource ⟨[.bytes [97], .eos]⟩
      .default).toOption.isSome = true := by
    decide +kernel
  exact ⟨_, eq_ok_get _ hsome,
    normalize_validates letterGenerators_wellFormed (eq_ok_get _ hsome) true⟩

end GreatGramma
