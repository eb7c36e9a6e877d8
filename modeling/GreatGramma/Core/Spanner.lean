import GreatGramma.Core.Sequence

/-!
# The inverse token spanner

`spanner.rs`: for every lexer source, the buckets that list which tokens realize which terminal
sequence head.  A token which leaves the lexer in a state and has emitted some terminals realizes
one head for every singleton terminal of that state: the emitted terminals followed by the
singleton.  The singleton stands for the lexeme that the token has begun and not finished.

## Queries

The first half of the file has the queries of the prepared value.  A query for a source that is not
one of the grammar is refused with that source, and one for a head or a token out of range with its
number.  The tokens of a head are those of its bucket, which is searched for in the row of the
source; a head without a bucket there has no tokens.

## Building

The second half builds the value.  A row is built token by token, and for every continuation of a
token its head is looked up in the table of heads, interned if it is new, and the token is appended
to the bucket of the head in the row, which is searched for from the front.  EOS tokens have no
continuations and are in no bucket.

Work is charged and totals of items are checked in the order of the source, so a preparation that
fails says which limit it failed on.
-/

namespace GreatGramma

/-- A checked error for read-only prepared-spanner queries. -/
inductive SpannerQueryError where
  | invalidState (state : DfaStateId)
  | invalidSequence (sequence : SequenceId)
  deriving DecidableEq

/-- The tokens that realize one head from one source. -/
structure InverseBucket where
  sequence : SequenceId
  tokens : List TokenId
  deriving DecidableEq

/-- Exact sequence heads and inverse token buckets. -/
structure PreparedSpanner where
  tokenTable : PreparedTokenTable
  sequences : SequenceTable
  inverse : List (List InverseBucket)

/-- `invalid_state`. -/
def invalidState (source : LexerState) : SpannerQueryError :=
  match source with
  | .start => .invalidState (2 ^ 32 - 1)
  | .dfa state => .invalidState state

/-- `bucket_index`. -/
def bucketIndex (row : List InverseBucket) (sequenceId : SequenceId) : Option ℕ :=
  row.findIdx? fun entry => entry.sequence == sequenceId

namespace PreparedSpanner

variable (spanner : PreparedSpanner)

/-- `PreparedSpanner::sequence_count`. -/
def sequenceCount : ℕ := spanner.sequences.sequenceCount

/-- `PreparedSpanner::sequence`. -/
def sequence (sequenceId : SequenceId) : Option (List TerminalId) :=
  spanner.sequences.sequence sequenceId

/-- `PreparedSpanner::query_source`. -/
def querySource (source : LexerState) : Except SpannerQueryError ℕ :=
  match sourceIndexForCount spanner.tokenTable.sourceCount source with
  | some index => .ok index
  | none => .error (invalidState source)

/-- `PreparedSpanner::singleton_terminals`. -/
def singletonTerminals (source : LexerState) : Except SpannerQueryError (List TerminalId) :=
  match spanner.querySource source with
  | .error error => .error error
  | .ok sourceIndex =>
    match spanner.sequences.singleton sourceIndex with
    | some terminals => .ok terminals
    | none => .error (invalidState source)

/-- `PreparedSpanner::inverse_buckets`. -/
def inverseBuckets (source : LexerState) : Except SpannerQueryError (List InverseBucket) :=
  match spanner.querySource source with
  | .error error => .error error
  | .ok sourceIndex =>
    match spanner.inverse[sourceIndex]? with
    | some row => .ok row
    | none => .error (invalidState source)

/-- `PreparedSpanner::inverse_tokens`. -/
def inverseTokens (source : LexerState) (sequenceId : SequenceId) :
    Except SpannerQueryError (List TokenId) :=
  if (spanner.sequences.sequence sequenceId).isNone then .error (.invalidSequence sequenceId)
  else
    match spanner.inverseBuckets source with
    | .error error => .error error
    | .ok row =>
      match bucketIndex row sequenceId with
      | none => .ok []
      | some index =>
        match row[index]? with
        | some entry => .ok entry.tokens
        | none => .error (.invalidSequence sequenceId)

/-- `PreparedSpanner::token_execution`. -/
def tokenExecution (source : LexerState) (token : TokenId) :
    Except SpannerQueryError (Option TokenExecution) :=
  match spanner.querySource source with
  | .error error => .error error
  | .ok sourceIndex =>
    match spanner.tokenTable.cell sourceIndex token with
    | some execution => .ok execution
    | none => .error (.invalidSequence token)

end PreparedSpanner

/-! ## Building the buckets -/

/-- `append_existing_member`. -/
def appendExistingMember (row : List InverseBucket) (index : ℕ) (token : TokenId) :
    Except PreparationError (List InverseBucket) :=
  match row[index]? with
  | none => .error .invariantViolation
  | some entry => .ok (row.set index { entry with tokens := entry.tokens ++ [token] })

/-- `append_member`. -/
def appendMember (row : List InverseBucket) (sequenceId : SequenceId) (token : TokenId)
    (limits : PreparationLimits) (work : WorkBudget) :
    Except PreparationError (List InverseBucket × WorkBudget) := do
  let work ← work.charge row.length
  match bucketIndex row sequenceId with
  | some index =>
    match row[index]? with
    | none => throw .invariantViolation
    | some entry =>
      let _ ← checkItems (checkedAdd entry.tokens.length 1) limits
      let row ← appendExistingMember row index token
      return (row, work)
  | none =>
    let _ ← checkItems (checkedAdd row.length 1) limits
    return (row ++ [⟨sequenceId, [token]⟩], work)

/-- What building one row changes. -/
structure RowBuild where
  sequences : SequenceTable
  row : List InverseBucket
  work : WorkBudget

/-- `append_continuation`. -/
def appendContinuation (destination singleton : ℕ) (emitted : List TerminalId) (token : TokenId)
    (limits : PreparationLimits) (build : RowBuild) : Except PreparationError RowBuild := do
  let work ← build.work.charge 1
  let some continuation := build.sequences.singletonTerminal destination singleton
    | throw .invariantViolation
  let (sequences, work, sequence) ←
    build.sequences.internHead emitted continuation limits work
  let (row, work) ← appendMember build.row sequence token limits work
  return ⟨sequences, row, work⟩

/-- `append_continuations`. -/
def appendContinuations (destination : ℕ) (emitted : List TerminalId) (token : TokenId)
    (limits : PreparationLimits) (build : RowBuild) : Except PreparationError RowBuild := do
  let some singletonCount := build.sequences.singletonCount destination
    | throw .invariantViolation
  (List.range singletonCount).foldlM
    (fun build singleton =>
      appendContinuation destination singleton emitted token limits build) build

/-- `append_token_continuations`. -/
def appendTokenContinuations (grammar : ValidatedGrammar) (tokenTable : PreparedTokenTable)
    (source : ℕ) (token : TokenId) (limits : PreparationLimits) (build : RowBuild)
    (inverseMembers : ℕ) : Except PreparationError (RowBuild × ℕ) := do
  let work ← build.work.charge 1
  let some execution := tokenTable.cell source token | throw .invariantViolation
  match execution with
  | some (.continue state emitted) =>
    let some destination := sourceIndex grammar state | throw .invariantViolation
    let some singletonCount := build.sequences.singletonCount destination
      | throw .invariantViolation
    let inverseMembers ← checkItems (checkedAdd inverseMembers singletonCount) limits
    let build ← appendContinuations destination emitted token limits { build with work }
    return (build, inverseMembers)
  | _ => return ({ build with work }, inverseMembers)

/-- `build_inverse_row`. -/
def buildInverseRow (grammar : ValidatedGrammar) (tokenTable : PreparedTokenTable)
    (sequences : SequenceTable) (source : ℕ) (limits : PreparationLimits) (work : WorkBudget)
    (inverseMembers : ℕ) : Except PreparationError (RowBuild × ℕ) :=
  (List.range grammar.tokenCount).foldlM
    (fun (build, inverseMembers) tokenIndex =>
      appendTokenContinuations grammar tokenTable source tokenIndex limits build inverseMembers)
    (⟨sequences, [], work⟩, inverseMembers)

/-- What building all rows changes. -/
structure InverseBuild where
  sequences : SequenceTable
  inverse : List (List InverseBucket)
  work : WorkBudget
  inverseMembers : ℕ

/-- `build_inverse_rows`. -/
def buildInverseRows (grammar : ValidatedGrammar) (tokenTable : PreparedTokenTable)
    (sequences : SequenceTable) (sourceCount : ℕ) (limits : PreparationLimits)
    (work : WorkBudget) : Except PreparationError InverseBuild :=
  (List.range sourceCount).foldlM
    (fun built source => do
      let (build, inverseMembers) ← buildInverseRow grammar tokenTable built.sequences source
        limits built.work built.inverseMembers
      return ⟨build.sequences, built.inverse ++ [build.row], build.work, inverseMembers⟩)
    ⟨sequences, [], work, 0⟩

/-- `prepare_spanner_with_budget`. -/
def prepareSpannerWithBudget (grammar : ValidatedGrammar) (limits : PreparationLimits)
    (work : WorkBudget) : Except PreparationError (PreparedSpanner × WorkBudget) := do
  let (work, tokenTable) ← prepareTokenTable grammar limits work
  let (work, sequences) ← buildSingletons grammar limits work
  let built ← buildInverseRows grammar tokenTable sequences tokenTable.sourceCount limits work
  return (⟨tokenTable, built.sequences, built.inverse⟩, built.work)

/-- Prepares exact singleton heads and deterministic inverse token buckets. -/
def prepareSpanner (grammar : ValidatedGrammar) (limits : PreparationLimits) :
    Except PreparationError PreparedSpanner := do
  let (spanner, _) ← prepareSpannerWithBudget grammar limits (WorkBudget.new limits)
  return spanner

end GreatGramma
