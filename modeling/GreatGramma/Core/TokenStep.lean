import GreatGramma.Core.Lexer

/-!
# Whole tokens against the lexer

`token_step.rs`: one model token composed with the lexer, and the table of all compositions that
preparation builds.

An ordinary token is its bytes, one step of the lexer after the other, with what they emit
collected; the EOS token is the end of the sequence, and what is flushed there comes with the EOF
terminal behind it.  A composition that the lexer refuses is a result and not an error: errors are
about arguments that are no states or no tokens of the tables.

The budgets of preparation are here too.  A budget has the work done so far and its maximum; a
charge is refused when the sum passes the maximum or overflows.

Preparation reserves memory too, and a refused reservation makes it return `AllocationFailure` and
no prepared value.  Here the reservations of preparation succeed; those of the runtime are
modelled.
-/

namespace GreatGramma

/-- The result of composing one complete model token with lexer execution. -/
inductive TokenExecution where
  | continue (state : LexerState) (emitted : List TerminalId)
  | finished (emitted : List TerminalId) (eof : TerminalId)
  deriving DecidableEq

/-- A fail-closed error for invalid public token-composition inputs. -/
inductive TokenStepError where
  | invalidToken (token : TokenId)
  | invalidState (state : DfaStateId)
  | allocationFailure (requested : ℕ)
  deriving DecidableEq

/-- Preparation failed before exposing a partial derived table. -/
inductive PreparationError where
  | tooLarge (required maximum : ℕ)
  | allocationFailure (requested : ℕ)
  | invariantViolation
  deriving DecidableEq

/-- Coarse bounds for derived preparation data and the work used to build it. -/
structure PreparationLimits where
  maxItems : ℕ
  maxWork : ℕ

/-! ## Budgets -/

/-- `check_limit`. -/
def checkLimit (required : Option ℕ) (maximum : ℕ) : Except PreparationError ℕ :=
  match required with
  | none => .error (.tooLarge usizeMax maximum)
  | some required =>
    if required > maximum then .error (.tooLarge required maximum) else .ok required

/-- `check_items`. -/
def checkItems (required : Option ℕ) (limits : PreparationLimits) : Except PreparationError ℕ :=
  checkLimit required limits.maxItems

theorem checkItems_ok {required : Option ℕ} {limits : PreparationLimits} {n : ℕ}
    (h : checkItems required limits = .ok n) : required = some n := by
  unfold checkItems checkLimit at h
  split at h
  · cases h
  · split_ifs at h
    cases h
    rfl

/-- The work preparation may still do. -/
structure WorkBudget where
  used : ℕ
  maximum : ℕ

/-- `WorkBudget::new`. -/
def WorkBudget.new (limits : PreparationLimits) : WorkBudget := ⟨0, limits.maxWork⟩

/-- `WorkBudget::charge`. -/
def WorkBudget.charge (work : WorkBudget) (amount : ℕ) : Except PreparationError WorkBudget := do
  let used ← checkLimit (checkedAdd work.used amount) work.maximum
  return { work with used }

/-- `WorkBudget::remaining`. -/
def WorkBudget.remaining (work : WorkBudget) : ℕ := work.maximum - work.used

/-! ## One token -/

/-- `map_lexer_rejection`. -/
def mapLexerRejection (error : LexerError) : Except TokenStepError (Option TokenExecution) :=
  match error with
  | .invalidState state => .error (.invalidState state)
  | .cannotBeginLexeme _ => .ok none
  | .byteAfterUnfinishedResidual _ _ => .ok none
  | .eosAfterUnfinishedResidual _ => .ok none

/-- `execute_byte`: the successor state, and the terminals emitted so far. -/
def executeByte (grammar : ValidatedGrammar) (state : LexerState) (byte : UInt8)
    (emitted : List TerminalId) :
    Except TokenStepError (Option LexerState) × List TerminalId :=
  match lexerStep grammar state (.byte byte) with
  | .ok (.continue destination terminal) => (.ok (some destination), emitted ++ terminal.toList)
  | .ok (.finished _ _) => (.ok none, emitted)
  | .error error =>
    match mapLexerRejection error with
    | .ok _ => (.ok none, emitted)
    | .error error => (.error error, emitted)

/-- The loop of `execute_bytes`. -/
def executeBytesFrom (grammar : ValidatedGrammar) :
    LexerState → List TerminalId → List UInt8 → Except TokenStepError (Option TokenExecution)
  | state, emitted, [] => .ok (some (.continue state emitted))
  | state, emitted, byte :: bytes =>
    match executeByte grammar state byte emitted with
    | (.ok (some destination), emitted) => executeBytesFrom grammar destination emitted bytes
    | (.ok none, _) => .ok none
    | (.error error, _) => .error error

/-- `execute_bytes`. -/
def executeBytes (grammar : ValidatedGrammar) (source : LexerState) (bytes : List UInt8) :
    Except TokenStepError (Option TokenExecution) :=
  executeBytesFrom grammar source [] bytes

/-- `execute_eos`. -/
def executeEos (grammar : ValidatedGrammar) (source : LexerState) :
    Except TokenStepError (Option TokenExecution) :=
  match lexerStep grammar source .eos with
  | .ok (.finished terminal eof) => .ok (some (.finished terminal.toList eof))
  | .ok (.continue _ _) => .ok none
  | .error error => mapLexerRejection error

/-- `execute_entry`. -/
def executeEntry (grammar : ValidatedGrammar) (source : LexerState) (entry : TokenEntry) :
    Except TokenStepError (Option TokenExecution) :=
  match entry with
  | .bytes bytes => executeBytes grammar source bytes
  | .eos => executeEos grammar source

/-- `check_source`. -/
def checkSource (grammar : ValidatedGrammar) (source : LexerState) : Except TokenStepError Unit :=
  match source with
  | .start => .ok ()
  | .dfa state =>
    if (grammar.lexer.terminal state).isSome then .ok () else .error (.invalidState state)

/-- Composes exactly one normalized model token with the lexer.  `ok none` is
ordinary lexer rejection. -/
def executeToken (grammar : ValidatedGrammar) (source : LexerState) (token : TokenId) :
    Except TokenStepError (Option TokenExecution) :=
  match checkSource grammar source with
  | .error error => .error error
  | .ok () =>
    match grammar.token token with
    | none => .error (.invalidToken token)
    | some entry => executeEntry grammar source entry

/-! ## Sources -/

/-- `source_count`: logical start, and the DFA states after it. -/
def sourceCount (grammar : ValidatedGrammar) : Except PreparationError ℕ :=
  match checkedAdd grammar.lexer.stateCount 1 with
  | none => .error .invariantViolation
  | some count => .ok count

/-- `source_at`. -/
def sourceAt (index : ℕ) : Option LexerState :=
  if index = 0 then some .start else (u32TryFrom (index - 1)).map .dfa

/-- `source_index_for_count`. -/
def sourceIndexForCount (count : ℕ) (source : LexerState) : Option ℕ :=
  match source with
  | .start => if count > 0 then some 0 else none
  | .dfa state => (checkedAdd state 1).filter (· < count)

/-- `source_index`. -/
def sourceIndex (grammar : ValidatedGrammar) (source : LexerState) : Option ℕ :=
  match sourceCount grammar with
  | .error _ => none
  | .ok count => sourceIndexForCount count source

/-! ## The token table -/

/-- `preparation_token_error`. -/
def preparationTokenError (error : TokenStepError) : PreparationError :=
  match error with
  | .allocationFailure requested => .allocationFailure requested
  | .invalidToken _ => .invariantViolation
  | .invalidState _ => .invariantViolation

/-- Every token from every source. -/
structure PreparedTokenTable where
  rows : List (List (Option TokenExecution))

/-- `PreparedTokenTable::source_count`. -/
def PreparedTokenTable.sourceCount (table : PreparedTokenTable) : ℕ := table.rows.length

/-- `PreparedTokenTable::cell`. -/
def PreparedTokenTable.cell (table : PreparedTokenTable) (source : ℕ) (token : TokenId) :
    Option (Option TokenExecution) := do
  let row ← table.rows[source]?
  row[token]?

/-- The number of terminals an execution emits. -/
def emittedLength (execution : Option TokenExecution) : ℕ :=
  match execution with
  | some (.continue _ emitted) => emitted.length
  | some (.finished emitted _) => emitted.length
  | none => 0

/-- `append_token_cell`. -/
def appendTokenCell (grammar : ValidatedGrammar) (source : LexerState) (tokenIndex : ℕ)
    (limits : PreparationLimits) (work : WorkBudget) (emittedItems : ℕ)
    (row : List (Option TokenExecution)) :
    Except PreparationError (WorkBudget × ℕ × List (Option TokenExecution)) := do
  let some token := u32TryFrom tokenIndex | throw .invariantViolation
  let some entry := grammar.token token | throw .invariantViolation
  let tokenWork ← match entry with
    | .bytes bytes => checkItems (some bytes.length) limits
    | .eos => pure 1
  let work ← work.charge tokenWork
  let execution ← (executeEntry grammar source entry).mapError preparationTokenError
  let emittedItems ← checkItems (checkedAdd emittedItems (emittedLength execution)) limits
  return (work, emittedItems, row ++ [execution])

/-- `build_token_row`. -/
def buildTokenRow (grammar : ValidatedGrammar) (source : LexerState) (tokenCount : ℕ)
    (limits : PreparationLimits) (work : WorkBudget) (emittedItems : ℕ) :
    Except PreparationError (WorkBudget × ℕ × List (Option TokenExecution)) :=
  (List.range tokenCount).foldlM
    (fun (work, emittedItems, row) tokenIndex =>
      appendTokenCell grammar source tokenIndex limits work emittedItems row)
    (work, emittedItems, [])

/-- `build_token_table_row`. -/
def buildTokenTableRow (grammar : ValidatedGrammar) (sourceIndex tokenCount : ℕ)
    (limits : PreparationLimits) (work : WorkBudget) (emittedItems : ℕ) :
    Except PreparationError (WorkBudget × ℕ × List (Option TokenExecution)) := do
  let some source := sourceAt sourceIndex | throw .invariantViolation
  buildTokenRow grammar source tokenCount limits work emittedItems

/-- `build_token_rows`. -/
def buildTokenRows (grammar : ValidatedGrammar) (sourceCount tokenCount : ℕ)
    (limits : PreparationLimits) (work : WorkBudget) (emittedItems : ℕ) :
    Except PreparationError (WorkBudget × ℕ × List (List (Option TokenExecution))) :=
  (List.range sourceCount).foldlM
    (fun (work, emittedItems, rows) sourceIndex => do
      let (work, emittedItems, row) ←
        buildTokenTableRow grammar sourceIndex tokenCount limits work emittedItems
      return (work, emittedItems, rows ++ [row]))
    (work, emittedItems, [])

/-- `prepare_token_table`. -/
def prepareTokenTable (grammar : ValidatedGrammar) (limits : PreparationLimits)
    (work : WorkBudget) : Except PreparationError (WorkBudget × PreparedTokenTable) := do
  let sources ← sourceCount grammar
  let tokens := grammar.tokenCount
  let cells ← checkItems (checkedMul sources tokens) limits
  let work ← work.charge cells
  let (work, _, rows) ← buildTokenRows grammar sources tokens limits work 0
  return (work, ⟨rows⟩)

end GreatGramma
