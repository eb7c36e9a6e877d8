import GreatGramma.Core.Normalized
import GreatGramma.Library.FirstError

/-!
# Validation

The checks of `validate.rs`, in the order of the source: the declared sizes and the totals that are
metered against the limits, the lengths of the tables, the scalars, and then every cell of every
table.  Each check stops at the first thing it does not like.

## What is handed over

The unvalidated side of `normalized.rs` is here too: the tables as a caller hands them over.  Counts
are `u32` in the source, and the bounds that this gives are fields; limits are `u64`, and so are the
totals, whose additions and products are checked.  Nothing else is known of such a grammar: vectors
may be of any length, and identifiers may be out of every range.

## Errors

An error names the table or the kind of identifier, with the index of the cell, the value found and
the bound, as the source reports them.  The one reservation that validation makes, for the table of
ignored terminals, is refused or granted by an argument.

What the checks ask of a grammar is said without them in `Validation.WellFormed`.
-/

namespace GreatGramma

open Reservation Traversal

/-! ## Errors -/

/-- Identifies a normalized table or scalar field in a validation failure. -/
inductive ValidationTable where
  | tokens
  | lexerByteClasses
  | lexerTransitions
  | lexerStart
  | lexerTerminals
  | parserActions
  | parserGotos
  | parserStart
  | parserEof
  | parserIgnoredTerminals
  | productions
  deriving DecidableEq

/-- Identifies the domain of an out-of-range checked ID. -/
inductive IdKind where
  | dfaState
  | terminal
  | parserState
  | nonterminal
  | production
  deriving DecidableEq

/-- Identifies a checked size calculation that overflowed. -/
inductive ArithmeticKind where
  | tokenCount
  | tokenBytes
  | productionCount
  | ignoredTerminalCount
  | lexerCells
  | parserActionCells
  | parserGotoCells
  | parserCells
  | logicalBytes
  | work
  deriving DecidableEq

/-- Identifies the finite budget exceeded by normalized input. -/
inductive LimitKind where
  | tokens
  | tokenBytes
  | dfaStates
  | dfaClasses
  | dfaCells
  | parserStates
  | terminals
  | nonterminals
  | productions
  | parserCells
  | logicalBytes
  | work
  deriving DecidableEq

/-- A fail-closed structural validation error for caller-owned normalized data. -/
inductive ValidationError where
  | emptyTokenTable
  | missingOrdinaryToken
  | missingEosToken
  | emptyTokenBytes (token : TokenId)
  | wrongTableLength (table : ValidationTable) (expected actual : ℕ)
  | idOutOfRange (table : ValidationTable) (index : Option ℕ) (kind : IdKind) (id count : ℕ)
  | byteClassOutOfRange (byte : UInt8) (class_ classCount : ℕ)
  | acceptingLexerStart (state : DfaStateId) (terminal : TerminalId)
  | lexerTerminalIsParserEof (state : DfaStateId) (terminal : TerminalId)
  | ignoredTerminalIsParserEof (index : ℕ) (terminal : TerminalId)
  | acceptOnNonEof (state : ParserStateId) (terminal : TerminalId)
  | arithmeticOverflow (calculation : ArithmeticKind)
  | limitExceeded (limit : LimitKind) (actual : ℕ) (maximum : UInt64)
  | allocationFailure (table : ValidationTable) (requested : ℕ)
  deriving DecidableEq

/-! ## Unvalidated grammars -/

/-- Finite resource limits applied before normalized tables become trusted input. -/
structure ValidationLimits where
  maxTokens : UInt64
  maxTokenBytes : UInt64
  maxDfaStates : UInt64
  maxDfaClasses : UInt64
  maxDfaCells : UInt64
  maxParserStates : UInt64
  maxTerminals : UInt64
  maxNonterminals : UInt64
  maxProductions : UInt64
  maxParserCells : UInt64
  maxLogicalBytes : UInt64
  maxWork : UInt64

/-- `ValidationLimits::default`. -/
def ValidationLimits.default : ValidationLimits where
  maxTokens := 1000000
  maxTokenBytes := (1 : UInt64) <<< 30
  maxDfaStates := 1000000
  maxDfaClasses := 256
  maxDfaCells := 64000000
  maxParserStates := 1000000
  maxTerminals := 65536
  maxNonterminals := 65536
  maxProductions := 1000000
  maxParserCells := 64000000
  maxLogicalBytes := (4 : UInt64) <<< 30
  maxWork := 1000000000

/-- Caller-owned normalized lexer data. -/
structure LexerDfa where
  stateCount : ℕ
  classCount : ℕ
  byteClasses : List ℕ
  transitions : List (Option DfaStateId)
  startState : DfaStateId
  terminals : List (Option TerminalId)
  stateCount_lt : stateCount < 2 ^ 32
  classCount_lt : classCount < 2 ^ 32

/-- Caller-owned normalized parser data. -/
structure LalrTable where
  dimensions : LalrDimensions
  startState : ParserStateId
  eofTerminal : TerminalId
  actions : List Action
  gotos : List (Option ParserStateId)
  productions : List Production
  ignoredTerminals : List TerminalId
  stateCount_lt : dimensions.stateCount < 2 ^ 32
  terminalCount_lt : dimensions.terminalCount < 2 ^ 32
  nonterminalCount_lt : dimensions.nonterminalCount < 2 ^ 32

/-- The public, caller-owned input to the normalized validation boundary. -/
structure UnvalidatedGrammar where
  tokens : List TokenEntry
  lexer : LexerDfa
  lalr : LalrTable

namespace Validate

/-- `BYTE_CLASS_TABLE_LEN`. -/
def byteClassTableLen : ℕ := 256

/-- `LOGICAL_ID_BYTES`. -/
def logicalIdBytes : ℕ := 4

/-- `LOGICAL_ACTION_BYTES`. -/
def logicalActionBytes : ℕ := 12

/-- `LOGICAL_ACTION_WORK`. -/
def logicalActionWork : ℕ := 2

/-- `LOGICAL_PRODUCTION_BYTES`. -/
def logicalProductionBytes : ℕ := 8

/-- `LOGICAL_FIXED_SCALARS`. -/
def logicalFixedScalars : ℕ := 8

/-! ## Elementary checks -/

/-- `validate_id`. -/
def validateId (table : ValidationTable) (index : Option ℕ) (kind : IdKind) (id count : ℕ) :
    Except ValidationError Unit :=
  if id ≥ count then .error (.idOutOfRange table index kind id count) else .ok ()

/-- `check_length`. -/
def checkLength (table : ValidationTable) (expected actual : ℕ) : Except ValidationError Unit :=
  if actual ≠ expected then .error (.wrongTableLength table expected actual) else .ok ()

/-- `check_limit`. -/
def checkLimit (limit : LimitKind) (actual : ℕ) (maximum : UInt64) :
    Except ValidationError Unit :=
  if actual > maximum.toNat then .error (.limitExceeded limit actual maximum) else .ok ()

/-- `index_as_u32`. -/
def indexAsU32 (index : ℕ) (calculation : ArithmeticKind) : Except ValidationError ℕ :=
  if index < 2 ^ 32 then .ok index else .error (.arithmeticOverflow calculation)

/-- `checked_len`. -/
def checkedLen (length : ℕ) (calculation : ArithmeticKind) : Except ValidationError ℕ :=
  indexAsU32 length calculation

/-- `checked_product`, in `u32`. -/
def checkedProduct (left right : ℕ) (calculation : ArithmeticKind) : Except ValidationError ℕ :=
  if left * right < 2 ^ 32 then .ok (left * right) else .error (.arithmeticOverflow calculation)

/-- The sum of the parser cells, in `u32`. -/
def checkedSum (left right : ℕ) (calculation : ArithmeticKind) : Except ValidationError ℕ :=
  if left + right < 2 ^ 32 then .ok (left + right) else .error (.arithmeticOverflow calculation)

/-- `count_as_usize`. -/
def countAsUsize (count : ℕ) (calculation : ArithmeticKind) : Except ValidationError ℕ :=
  if count ≤ usizeMax then .ok count else .error (.arithmeticOverflow calculation)

/-- `checked_add`, in `u64`. -/
def checkedAdd (left right : ℕ) (calculation : ArithmeticKind) : Except ValidationError ℕ :=
  if left + right < 2 ^ 64 then .ok (left + right) else .error (.arithmeticOverflow calculation)

/-- `checked_mul`, in `u64`. -/
def checkedMul (left right : ℕ) (calculation : ArithmeticKind) : Except ValidationError ℕ :=
  if left * right < 2 ^ 64 then .ok (left * right) else .error (.arithmeticOverflow calculation)

section
variable {table : ValidationTable} {index : Option ℕ} {kind : IdKind} {limit : LimitKind}
  {calculation : ArithmeticKind} {a b c : ℕ} {maximum : UInt64} {u : Unit}

@[simp] theorem validateId_eq_ok : validateId table index kind a b = .ok u ↔ a < b := by
  rw [validateId, ite_error_eq_ok, Nat.not_le]
  exact and_iff_left rfl

@[simp] theorem checkLength_eq_ok : checkLength table a b = .ok u ↔ b = a := by
  rw [checkLength, ite_error_eq_ok, not_not]
  exact and_iff_left rfl

@[simp] theorem checkLimit_eq_ok : checkLimit limit a maximum = .ok u ↔ a ≤ maximum.toNat := by
  rw [checkLimit, ite_error_eq_ok, Nat.not_lt]
  exact and_iff_left rfl

@[simp] theorem indexAsU32_eq_ok : indexAsU32 a calculation = .ok c ↔ a < 2 ^ 32 ∧ a = c :=
  ite_ok_eq_ok

@[simp] theorem checkedLen_eq_ok : checkedLen a calculation = .ok c ↔ a < 2 ^ 32 ∧ a = c :=
  ite_ok_eq_ok

@[simp] theorem checkedProduct_eq_ok :
    checkedProduct a b calculation = .ok c ↔ a * b < 2 ^ 32 ∧ a * b = c :=
  ite_ok_eq_ok

@[simp] theorem checkedSum_eq_ok :
    checkedSum a b calculation = .ok c ↔ a + b < 2 ^ 32 ∧ a + b = c :=
  ite_ok_eq_ok

@[simp] theorem countAsUsize_eq_ok : countAsUsize a calculation = .ok c ↔ a ≤ usizeMax ∧ a = c :=
  ite_ok_eq_ok

@[simp] theorem checkedAdd_eq_ok :
    checkedAdd a b calculation = .ok c ↔ a + b < 2 ^ 64 ∧ a + b = c :=
  ite_ok_eq_ok

@[simp] theorem checkedMul_eq_ok :
    checkedMul a b calculation = .ok c ↔ a * b < 2 ^ 64 ∧ a * b = c :=
  ite_ok_eq_ok

end

/-! ## Declared sizes -/

/-- The counts that the totals are computed from. -/
structure DeclaredSizes where
  tokenCount : ℕ
  tokenBytes : ℕ
  lexerStates : ℕ
  lexerCells : ℕ
  parserActionCells : ℕ
  parserGotoCells : ℕ
  productionCount : ℕ
  ignoredTerminalCount : ℕ

/-- `logical_bytes`. -/
def logicalBytes (sizes : DeclaredSizes) : Except ValidationError ℕ := do
  let total ← checkedAdd sizes.tokenCount sizes.tokenBytes .logicalBytes
  let total ← checkedAdd total (← checkedMul logicalFixedScalars logicalIdBytes .logicalBytes)
    .logicalBytes
  let total ← checkedAdd total (← checkedMul byteClassTableLen logicalIdBytes .logicalBytes)
    .logicalBytes
  let total ← checkedAdd total (← checkedMul sizes.lexerCells logicalIdBytes .logicalBytes)
    .logicalBytes
  let total ← checkedAdd total (← checkedMul sizes.lexerStates logicalIdBytes .logicalBytes)
    .logicalBytes
  let total ← checkedAdd total
    (← checkedMul sizes.parserActionCells logicalActionBytes .logicalBytes) .logicalBytes
  let total ← checkedAdd total (← checkedMul sizes.parserGotoCells logicalIdBytes .logicalBytes)
    .logicalBytes
  let total ← checkedAdd total
    (← checkedMul sizes.productionCount logicalProductionBytes .logicalBytes) .logicalBytes
  checkedAdd total (← checkedMul sizes.ignoredTerminalCount logicalIdBytes .logicalBytes)
    .logicalBytes

/-- `validation_base_work`. -/
def validationBaseWork (sizes : DeclaredSizes) : Except ValidationError ℕ := do
  let total ← checkedAdd 0 logicalFixedScalars .work
  let total ← checkedAdd total byteClassTableLen .work
  let total ← checkedAdd total sizes.lexerStates .work
  let total ← checkedAdd total sizes.lexerCells .work
  let total ← checkedAdd total (← checkedMul sizes.parserActionCells logicalActionWork .work) .work
  let total ← checkedAdd total sizes.parserGotoCells .work
  let total ← checkedAdd total sizes.productionCount .work
  checkedAdd total sizes.ignoredTerminalCount .work

/-! ## Tokens -/

/-- What the token loop has seen. -/
structure TokenValidation where
  hasOrdinary : Bool
  hasEos : Bool
  totalBytes : ℕ
  work : ℕ

/-- `validate_token_entry`: the state after the entry. -/
def validateTokenEntry (limits : ValidationLimits) (state : TokenValidation)
    (entry : TokenEntry × ℕ) : Except ValidationError TokenValidation := do
  let work ← checkedAdd state.work 1 .work
  checkLimit .work work limits.maxWork
  match entry.1 with
  | .bytes bytes =>
    if bytes.isEmpty then
      let token ← indexAsU32 entry.2 .tokenCount
      .error (.emptyTokenBytes token)
    else
    -- `u64::try_from` of a length never fails on the 64-bit word.
    let totalBytes ← checkedAdd state.totalBytes bytes.length .tokenBytes
    checkLimit .tokenBytes totalBytes limits.maxTokenBytes
    let work ← checkedAdd work bytes.length .work
    checkLimit .work work limits.maxWork
    return ⟨true, state.hasEos, totalBytes, work⟩
  | .eos => return ⟨state.hasOrdinary, true, state.totalBytes, work⟩

/-- `validate_tokens`: the bytes of all tokens. -/
def validateTokens (tokens : List TokenEntry) (initialWork : ℕ) (limits : ValidationLimits) :
    Except ValidationError ℕ := do
  let state ← tokens.zipIdx.foldlM (validateTokenEntry limits) ⟨false, false, 0, initialWork⟩
  if !state.hasOrdinary then .error .missingOrdinaryToken
  else if !state.hasEos then .error .missingEosToken
  else return state.totalBytes

/-- `validate_declared_sizes`. -/
def validateDeclaredSizes (tokens : List TokenEntry) (lexer : LexerDfa) (lalr : LalrTable)
    (limits : ValidationLimits) : Except ValidationError DeclaredSizes :=
  if tokens.isEmpty then .error .emptyTokenTable else do
  let tokenCount ← checkedLen tokens.length .tokenCount
  checkLimit .tokens tokenCount limits.maxTokens
  checkLimit .dfaStates lexer.stateCount limits.maxDfaStates
  checkLimit .dfaClasses lexer.classCount limits.maxDfaClasses
  checkLimit .parserStates lalr.dimensions.stateCount limits.maxParserStates
  checkLimit .terminals lalr.dimensions.terminalCount limits.maxTerminals
  checkLimit .nonterminals lalr.dimensions.nonterminalCount limits.maxNonterminals
  let productionCount ← checkedLen lalr.productions.length .productionCount
  let ignoredTerminalCount ← checkedLen lalr.ignoredTerminals.length .ignoredTerminalCount
  checkLimit .productions productionCount limits.maxProductions
  let lexerCells ← checkedProduct lexer.stateCount lexer.classCount .lexerCells
  checkLimit .dfaCells lexerCells limits.maxDfaCells
  let parserActionCells ← checkedProduct lalr.dimensions.stateCount lalr.dimensions.terminalCount
    .parserActionCells
  let parserGotoCells ← checkedProduct lalr.dimensions.stateCount lalr.dimensions.nonterminalCount
    .parserGotoCells
  let parserCells ← checkedSum parserActionCells parserGotoCells .parserCells
  checkLimit .parserCells parserCells limits.maxParserCells
  let sizes : DeclaredSizes := ⟨0, 0, lexer.stateCount, lexerCells, parserActionCells,
    parserGotoCells, productionCount, ignoredTerminalCount⟩
  let baseWork ← validationBaseWork sizes
  checkLimit .work baseWork limits.maxWork
  let tokenBytes ← validateTokens tokens baseWork limits
  let sizes := { sizes with tokenCount, tokenBytes }
  let logicalBytes ← logicalBytes sizes
  checkLimit .logicalBytes logicalBytes limits.maxLogicalBytes
  return sizes

/-! ## Tables -/

/-- A cell that may be absent. -/
def validateOptionalId (table : ValidationTable) (kind : IdKind) (count : ℕ) (id : Option ℕ)
    (index : ℕ) : Except ValidationError Unit :=
  match id with
  | some id => validateId table (some index) kind id count
  | none => .ok ()

/-- `validate_transition`. -/
def validateTransition (stateCount : ℕ) : Option DfaStateId → ℕ → Except ValidationError Unit :=
  validateOptionalId .lexerTransitions .dfaState stateCount

/-- `validate_transitions`. -/
def validateTransitions (transitions : List (Option DfaStateId)) (stateCount : ℕ) :
    Except ValidationError Unit :=
  checkEach (validateTransition stateCount) transitions

/-- `validate_goto`. -/
def validateGoto (stateCount : ℕ) : Option ParserStateId → ℕ → Except ValidationError Unit :=
  validateOptionalId .parserGotos .parserState stateCount

/-- `validate_gotos`. -/
def validateGotos (gotos : List (Option ParserStateId)) (stateCount : ℕ) :
    Except ValidationError Unit :=
  checkEach (validateGoto stateCount) gotos

/-- `validate_lexer_terminal`. -/
def validateLexerTerminal (startState : DfaStateId) (terminalCount : ℕ) (eofTerminal : TerminalId)
    (terminal : Option TerminalId) (index : ℕ) : Except ValidationError Unit :=
  match terminal with
  | none => .ok ()
  | some terminal => do
    validateId .lexerTerminals (some index) .terminal terminal terminalCount
    let state ← indexAsU32 index .lexerCells
    if state = startState then .error (.acceptingLexerStart state terminal)
    else if terminal = eofTerminal then .error (.lexerTerminalIsParserEof state terminal)
    else .ok ()

/-- `validate_lexer_terminals`. -/
def validateLexerTerminals (terminals : List (Option TerminalId)) (startState : DfaStateId)
    (terminalCount : ℕ) (eofTerminal : TerminalId) : Except ValidationError Unit :=
  checkEach (validateLexerTerminal startState terminalCount eofTerminal) terminals

/-- `validate_productions`. -/
def validateProductions (productions : List Production) (nonterminalCount : ℕ) :
    Except ValidationError Unit :=
  checkEach (fun production index =>
    validateId .productions (some index) .nonterminal production.lhs nonterminalCount) productions

/-- `validate_byte_class`. -/
def validateByteClass (classCount : ℕ) (byteClass index : ℕ) : Except ValidationError Unit :=
  if byteClass ≥ classCount then
    if index < 256 then
      .error (.byteClassOutOfRange (UInt8.ofNat index) byteClass classCount)
    else .error (.arithmeticOverflow .lexerCells)
  else .ok ()

/-- `validate_byte_classes`. -/
def validateByteClasses (classes : List ℕ) (classCount : ℕ) : Except ValidationError Unit :=
  checkEach (validateByteClass classCount) classes

/-- `validate_action`.  The remainder by the width is taken in the `Accept` branch only,
and the width is positive there, since the EOF terminal was found to be in range. -/
def validateAction (terminalWidth stateCount productionCount : ℕ) (eofTerminal : TerminalId)
    (action : Action) (index : ℕ) : Except ValidationError Unit :=
  match action with
  | .error => .ok ()
  | .shift destination =>
    validateId .parserActions (some index) .parserState destination stateCount
  | .reduce production _ =>
    validateId .parserActions (some index) .production production productionCount
  | .accept => do
    let terminal ← indexAsU32 (index % terminalWidth) .parserActionCells
    if terminal ≠ eofTerminal then
      let state ← indexAsU32 (index / terminalWidth) .parserActionCells
      .error (.acceptOnNonEof state terminal)
    else .ok ()

/-- `validate_actions`. -/
def validateActions (actions : List Action) (stateCount terminalCount productionCount : ℕ)
    (eofTerminal : TerminalId) : Except ValidationError Unit := do
  let terminalWidth ← countAsUsize terminalCount .parserActionCells
  checkEach (validateAction terminalWidth stateCount productionCount eofTerminal) actions

/-- `validate_ignored_terminal`. -/
def validateIgnoredTerminal (terminalCount : ℕ) (eofTerminal : TerminalId)
    (terminal : TerminalId) (index : ℕ) : Except ValidationError Unit := do
  validateId .parserIgnoredTerminals (some index) .terminal terminal terminalCount
  if terminal = eofTerminal then .error (.ignoredTerminalIsParserEof index terminal) else .ok ()

/-- `validate_ignored_terminals`. -/
def validateIgnoredTerminals (ignoredTerminals : List TerminalId) (terminalCount : ℕ)
    (eofTerminal : TerminalId) : Except ValidationError Unit :=
  checkEach (validateIgnoredTerminal terminalCount eofTerminal) ignoredTerminals

/-! ## Ignored terminals -/

/-- `mark_ignored_terminal`. -/
def markIgnoredTerminal (table : List UInt8) (terminal : TerminalId) :
    Except ValidationError (List UInt8) :=
  if terminal < table.length then .ok (table.set terminal 1)
  else .error (.arithmeticOverflow .ignoredTerminalCount)

/-- `build_ignored_terminal_table`, with the allocator's answer to its reservation. -/
def buildIgnoredTerminalTable (ignoredTerminals : List TerminalId) (terminalCount : ℕ)
    (granted : Bool) : Except ValidationError (List UInt8) := do
  let requested ← countAsUsize terminalCount .ignoredTerminalCount
  if !granted then .error (.allocationFailure .parserIgnoredTerminals requested)
  else ignoredTerminals.foldlM markIgnoredTerminal (List.replicate requested 0)

/-! ## The whole grammar -/

/-- The checks of `validate`, and the table of ignored terminals that it builds. -/
def checkGrammar (grammar : UnvalidatedGrammar) (limits : ValidationLimits) (granted : Bool) :
    Except ValidationError (List UInt8) := do
  let lexer := grammar.lexer
  let lalr := grammar.lalr
  let sizes ← validateDeclaredSizes grammar.tokens lexer lalr limits
  checkLength .lexerByteClasses byteClassTableLen lexer.byteClasses.length
  checkLength .lexerTransitions (← countAsUsize sizes.lexerCells .lexerCells)
    lexer.transitions.length
  checkLength .lexerTerminals (← countAsUsize lexer.stateCount .lexerCells) lexer.terminals.length
  checkLength .parserActions (← countAsUsize sizes.parserActionCells .parserActionCells)
    lalr.actions.length
  checkLength .parserGotos (← countAsUsize sizes.parserGotoCells .parserGotoCells)
    lalr.gotos.length
  validateId .lexerStart none .dfaState lexer.startState lexer.stateCount
  validateId .parserStart none .parserState lalr.startState lalr.dimensions.stateCount
  validateId .parserEof none .terminal lalr.eofTerminal lalr.dimensions.terminalCount
  validateIgnoredTerminals lalr.ignoredTerminals lalr.dimensions.terminalCount lalr.eofTerminal
  validateByteClasses lexer.byteClasses lexer.classCount
  validateTransitions lexer.transitions lexer.stateCount
  validateLexerTerminals lexer.terminals lexer.startState lalr.dimensions.terminalCount
    lalr.eofTerminal
  validateActions lalr.actions lalr.dimensions.stateCount lalr.dimensions.terminalCount
    sizes.productionCount lalr.eofTerminal
  validateGotos lalr.gotos lalr.dimensions.stateCount
  validateProductions lalr.productions lalr.dimensions.nonterminalCount
  buildIgnoredTerminalTable lalr.ignoredTerminals lalr.dimensions.terminalCount granted

end Validate
end GreatGramma
