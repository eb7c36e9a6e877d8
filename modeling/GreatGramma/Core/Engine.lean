import GreatGramma.Core.Preprocess

/-!
# The engine

`engine.rs` and `mask.rs`: preparation as a whole, the decisions a prepared grammar makes about one
token or one mask, and the matcher that keeps a batch of rows.

## Buffers

A matcher owns two vectors of row states and one scratch stack.  `states` is what is committed.
`staging` has one slot per row and holds whatever earlier calls left there: a transition is written
into a slot first and committed by swapping, one slot for `advance`, the whole vectors for the batch
calls.  Nothing clears a slot after a failure.  The model keeps all of this: a call returns the
buffers as they are after it, also when it fails.

## Functions on borrowed buffers

A Rust function that takes `&mut` buffers is a function here that takes them and returns them, with
its result in front.  The allocator travels with the stacks; it answers the reservations in the
order in which the source makes them, and what it answers is not fixed.  Loops over rows and buckets
are the ones of `Library.Traversal`: a scan that writes as it goes, a search that ends at the first
`true`.

## Errors

Two errors say that the program is not what it should be.  `CorruptPreparedData` is what a lookup
returns that cannot fail on data that were prepared, and also what a fault of the parser tables is
reported as; `AllocationFailure` is a refused reservation.  All others are about the arguments of a
call.  Which of the exits are ever taken is a matter of its own (`Matcher.Lookups`,
`Matcher.Corruption`).
-/

namespace GreatGramma

open Reservation Traversal

/-! ## Results and errors -/

/-- Successful atomic token advancement. -/
inductive AdvanceResult where
  | continue
  | accepted
  deriving DecidableEq

/-- Fail-closed matcher preparation, query, and transition errors. -/
inductive EngineError where
  | invalidToken (token : TokenId)
  | invalidRow (row rows : ℕ)
  | emptyBatch
  | batchSizeMismatch (expected actual : ℕ)
  | missingRunningToken (row : ℕ)
  | completed
  | constraintViolation (token : TokenId)
  | batchConstraintViolation (row : ℕ) (token : TokenId)
  | bufferTooSmall (required actual : ℕ)
  | noValidToken
  | allocationFailure (requested : ℕ)
  | corruptPreparedData
  deriving DecidableEq

/-- The one engine error that reports a refused reservation. -/
instance : HasRefusal EngineError := ⟨fun e => ∃ requested, e = .allocationFailure requested⟩

/-- What one token does to a row. -/
inductive TokenDecision where
  | rejected
  | continue (lexer : LexerState)
  | accepted
  deriving DecidableEq

/-- `map_parser_error`. -/
def mapParserError (error : ParserError) : EngineError :=
  match error with
  | .allocationFailure requested => .allocationFailure requested
  | _ => .corruptPreparedData

/-- `map_spanner_error`. -/
def mapSpannerError (_error : SpannerQueryError) : EngineError := .corruptPreparedData

/-! ## Packed masks -/

/-- `mask::clear`. -/
def Mask.clear (output : List UInt8) : List UInt8 := List.replicate output.length 0

/-- `mask::set`: token `t` is bit `t % 8` of byte `t / 8`. -/
def Mask.set (output : List UInt8) (token : TokenId) : Except EngineError Unit × List UInt8 :=
  let byteIndex := token / 8
  let bitIndex := token % 8
  match output[byteIndex]? with
  | some byte => (.ok (), output.set byteIndex (byte ||| 1 <<< UInt8.ofNat bitIndex))
  | none => (.error .corruptPreparedData, output)

/-! ## Prepared grammars -/

/-- One immutable, fully prepared normalized grammar and all of its derived
tables. -/
structure PreparedGrammar where
  grammar : ValidatedGrammar
  spanner : PreparedSpanner
  parser : PreparedParser
  maskBytes : ℕ

/-- Consumes validated grammar tables and builds the single opaque runtime
owner. -/
def prepare (grammar : ValidatedGrammar) (limits : PreparationLimits) :
    Except PreparationError PreparedGrammar := do
  let work := WorkBudget.new limits
  let (spanner, work) ← prepareSpannerWithBudget grammar limits work
  let (parser, _) ← prepareParserWithBudget grammar spanner limits work
  let some rounded := checkedAdd grammar.tokenCount 7 | throw .invariantViolation
  return ⟨grammar, spanner, parser, rounded / 8⟩

/-- Whether a row still runs. -/
inductive MatcherPhase where
  | running (lexer : LexerState)
  | accepted
  deriving DecidableEq

/-- One row. -/
structure MatcherStatus where
  phase : MatcherPhase
  parserStack : List ParserStateId
  deriving DecidableEq

/-- `MatcherStatus::empty`. -/
def MatcherStatus.empty : MatcherStatus := ⟨.accepted, []⟩

/-- `MatcherStatus::set_accepted`. -/
def MatcherStatus.setAccepted (_status : MatcherStatus) : MatcherStatus := ⟨.accepted, []⟩

/-- `running_lexer`. -/
def runningLexer (state : MatcherStatus) : Except EngineError LexerState :=
  match state.phase with
  | .running lexer => .ok lexer
  | .accepted => .error .completed

/-- The buffers a mask is computed in: the caller's bytes and the scratch
stack. -/
structure MaskBuffers where
  output : List UInt8
  scratch : Workspace

instance : HasMemory MaskBuffers := ⟨fun buffers => buffers.scratch.memory⟩

namespace PreparedGrammar

variable (prepared : PreparedGrammar)

/-- `PreparedGrammar::token_count`. -/
def tokenCount : ℕ := prepared.grammar.tokenCount

/-- `PreparedGrammar::check_token`. -/
def checkToken (token : TokenId) : Except EngineError Unit :=
  if token ≥ prepared.grammar.tokenCount then .error (.invalidToken token) else .ok ()

/-! ### Decisions about one token -/

/-- `PreparedGrammar::evaluate_eos_into`. -/
def evaluateEosInto (parserStack : List ParserStateId) (emitted : List TerminalId)
    (eof : TerminalId) (destination : Workspace) : Except EngineError TokenDecision × Workspace :=
  match executeTerminalsConcreteInto prepared.grammar.lalr parserStack emitted destination with
  | (.error error, destination) => (.error (mapParserError error), destination)
  | (.ok .rejected, destination) => (.ok .rejected, destination)
  | (.ok .accepted, destination) => (.error .corruptPreparedData, destination)
  | (.ok .dependent, destination) => (.error .corruptPreparedData, destination)
  | (.ok .continue, destination) =>
    match executeTerminalsConcreteInPlace prepared.grammar.lalr destination [eof] with
    | (.error error, destination) => (.error (mapParserError error), destination)
    | (.ok .accepted, destination) => (.ok .accepted, destination)
    | (.ok .rejected, destination) => (.ok .rejected, destination)
    | (.ok .continue, destination) => (.ok .rejected, destination)
    | (.ok .dependent, destination) => (.error .corruptPreparedData, destination)

/-- `PreparedGrammar::sequence_allowed_with_scratch`. -/
def sequenceAllowedWithScratch (parserStack : List ParserStateId) (sequence : SequenceId)
    (scratch : Workspace) : Except EngineError Bool × Workspace :=
  match parserStack.getLast? with
  | none => (.error .corruptPreparedData, scratch)
  | some top =>
    match prepared.parser.classification top sequence with
    | .error error => (.error (mapParserError error), scratch)
    | .ok .alwaysReadable => (.ok true, scratch)
    | .ok .rejected => (.ok false, scratch)
    | .ok .dependent =>
      match prepared.spanner.sequence sequence with
      | none => (.error .corruptPreparedData, scratch)
      | some head =>
        match sequenceHeadAllowedWithScratch prepared.grammar parserStack head scratch with
        | (.ok allowed, scratch) => (.ok allowed, scratch)
        | (.error error, scratch) => (.error (mapParserError error), scratch)

/-- `bucket_sequence_for_token`. -/
def bucketSequenceForToken (bucket : InverseBucket) (token : TokenId) : Option SequenceId :=
  if bucket.tokens.contains token then some bucket.sequence else none

/-- `PreparedGrammar::bucket_allows_token`. -/
def bucketAllowsToken (parserStack : List ParserStateId) (buckets : List InverseBucket)
    (bucketIndex : ℕ) (token : TokenId) (scratch : Workspace) :
    Except EngineError Bool × Workspace :=
  match buckets[bucketIndex]? with
  | none => (.error .corruptPreparedData, scratch)
  | some bucket =>
    match bucketSequenceForToken bucket token with
    | some sequence => prepared.sequenceAllowedWithScratch parserStack sequence scratch
    | none => (.ok false, scratch)

/-- `PreparedGrammar::ordinary_token_allowed_with_scratch`: the buckets are tried
in order, up to the first that allows the token. -/
def ordinaryTokenAllowedWithScratch (lexer : LexerState) (parserStack : List ParserStateId)
    (token : TokenId) (scratch : Workspace) : Except EngineError Bool × Workspace :=
  match prepared.spanner.inverseBuckets lexer with
  | .error error => (.error (mapSpannerError error), scratch)
  | .ok buckets =>
    search buckets.length
      (fun bucketIndex => prepared.bucketAllowsToken parserStack buckets bucketIndex token) scratch

/-- `PreparedGrammar::evaluate_token_into`. -/
def evaluateTokenInto (lexer : LexerState) (parserStack : List ParserStateId) (token : TokenId)
    (destination : Workspace) : Except EngineError TokenDecision × Workspace :=
  match prepared.spanner.tokenExecution lexer token with
  | .error error => (.error (mapSpannerError error), destination)
  | .ok none => (.ok .rejected, destination)
  | .ok (some (.continue state emitted)) =>
    match prepared.ordinaryTokenAllowedWithScratch lexer parserStack token destination with
    | (.error error, destination) => (.error error, destination)
    | (.ok false, destination) => (.ok .rejected, destination)
    | (.ok true, destination) =>
      match executeTerminalsConcreteInto prepared.grammar.lalr parserStack emitted destination with
      | (.error error, destination) => (.error (mapParserError error), destination)
      | (.ok .rejected, destination) => (.error .corruptPreparedData, destination)
      | (.ok .continue, destination) => (.ok (.continue state), destination)
      | (.ok .accepted, destination) => (.error .corruptPreparedData, destination)
      | (.ok .dependent, destination) => (.error .corruptPreparedData, destination)
  | .ok (some (.finished emitted eof)) =>
    if eof ≠ prepared.grammar.lalr.eofTerminal then (.error .corruptPreparedData, destination)
    else prepared.evaluateEosInto parserStack emitted eof destination

/-- `PreparedGrammar::allows_status`. -/
def allowsStatus (state : MatcherStatus) (token : TokenId) (memory : Memory) :
    Except EngineError Bool × Memory :=
  match runningLexer state with
  | .error error => (.error error, memory)
  | .ok lexer =>
    match prepared.checkToken token with
    | .error error => (.error error, memory)
    | .ok () =>
      match prepared.evaluateTokenInto lexer state.parserStack token ⟨[], memory⟩ with
      | (.error error, destination) => (.error error, destination.memory)
      | (.ok .rejected, destination) => (.ok false, destination.memory)
      | (.ok _, destination) => (.ok true, destination.memory)

/-- `PreparedGrammar::next_status_into`: the destination's stack is overwritten
also when the token is refused. -/
def nextStatusInto (state : MatcherStatus) (token : TokenId)
    (destination : MatcherStatus × Memory) :
    Except EngineError AdvanceResult × MatcherStatus × Memory :=
  match runningLexer state with
  | .error error => (.error error, destination)
  | .ok lexer =>
    match prepared.checkToken token with
    | .error error => (.error error, destination)
    | .ok () =>
      match prepared.evaluateTokenInto lexer state.parserStack token
          ⟨destination.1.parserStack, destination.2⟩ with
      | (.error error, written) =>
        (.error error, ⟨destination.1.phase, written.stack⟩, written.memory)
      | (.ok .rejected, written) =>
        (.error (.constraintViolation token), ⟨destination.1.phase, written.stack⟩,
          written.memory)
      | (.ok (.continue lexer), written) =>
        (.ok .continue, ⟨.running lexer, written.stack⟩, written.memory)
      | (.ok .accepted, written) =>
        (.ok .accepted, destination.1.setAccepted, written.memory)

/-! ### Masks -/

/-- Sets the bit of one token of a bucket. -/
def fillBucketToken (bucket : InverseBucket) (tokenIndex : ℕ) (buffers : MaskBuffers) :
    Except EngineError Bool × MaskBuffers :=
  match bucket.tokens[tokenIndex]? with
  | none => (.error .corruptPreparedData, buffers)
  | some token =>
    match Mask.set buffers.output token with
    | (.ok (), output) => (.ok true, { buffers with output })
    | (.error error, output) => (.error error, { buffers with output })

/-- `PreparedGrammar::fill_bucket_mask`. -/
def fillBucketMask (parserStack : List ParserStateId) (bucket : InverseBucket)
    (buffers : MaskBuffers) : Except EngineError Bool × MaskBuffers :=
  match prepared.sequenceAllowedWithScratch parserStack bucket.sequence buffers.scratch with
  | (.error error, scratch) => (.error error, { buffers with scratch })
  | (.ok false, scratch) => (.ok false, { buffers with scratch })
  | (.ok true, scratch) =>
    sweep bucket.tokens.length (fillBucketToken bucket) { buffers with scratch }

/-- `PreparedGrammar::fill_bucket_at`. -/
def fillBucketAt (parserStack : List ParserStateId) (buckets : List InverseBucket)
    (bucketIndex : ℕ) (buffers : MaskBuffers) : Except EngineError Bool × MaskBuffers :=
  match buckets[bucketIndex]? with
  | none => (.error .corruptPreparedData, buffers)
  | some bucket => prepared.fillBucketMask parserStack bucket buffers

/-- `PreparedGrammar::fill_ordinary_mask`. -/
def fillOrdinaryMask (parserStack : List ParserStateId) (buckets : List InverseBucket)
    (buffers : MaskBuffers) : Except EngineError Bool × MaskBuffers :=
  sweep buckets.length (prepared.fillBucketAt parserStack buckets) buffers

/-- `PreparedGrammar::fill_eos_token`. -/
def fillEosToken (lexer : LexerState) (parserStack : List ParserStateId) (token : TokenId)
    (buffers : MaskBuffers) : Except EngineError Bool × MaskBuffers :=
  match prepared.spanner.tokenExecution lexer token with
  | .error error => (.error (mapSpannerError error), buffers)
  | .ok (some (.finished emitted eof)) =>
    if eof ≠ prepared.grammar.lalr.eofTerminal then (.error .corruptPreparedData, buffers)
    else
      match prepared.evaluateEosInto parserStack emitted eof buffers.scratch with
      | (.error error, scratch) => (.error error, { buffers with scratch })
      | (.ok .accepted, scratch) =>
        match Mask.set buffers.output token with
        | (.error error, output) => (.error error, ⟨output, scratch⟩)
        | (.ok (), output) => (.ok true, ⟨output, scratch⟩)
      | (.ok _, scratch) => (.ok false, { buffers with scratch })
  | .ok _ => (.ok false, buffers)

/-- `PreparedGrammar::fill_eos_mask`. -/
def fillEosMask (lexer : LexerState) (parserStack : List ParserStateId) (buffers : MaskBuffers) :
    Except EngineError Bool × MaskBuffers :=
  sweep prepared.grammar.tokenCount (prepared.fillEosToken lexer parserStack) buffers

/-- `PreparedGrammar::fill_mask_with_scratch`. -/
def fillMaskWithScratch (state : MatcherStatus) (buffers : MaskBuffers) :
    Except EngineError Unit × MaskBuffers :=
  match runningLexer state with
  | .error error => (.error error, buffers)
  | .ok lexer =>
    if buffers.output.length < prepared.maskBytes then
      (.error (.bufferTooSmall prepared.maskBytes buffers.output.length), buffers)
    else
      match prepared.spanner.inverseBuckets lexer with
      | .error error => (.error (mapSpannerError error), buffers)
      | .ok buckets =>
        match prepared.fillOrdinaryMask state.parserStack buckets buffers with
        | (.error error, buffers) => (.error error, buffers)
        | (.ok ordinaryAllowed, buffers) =>
          match prepared.fillEosMask lexer state.parserStack buffers with
          | (.error error, buffers) => (.error error, buffers)
          | (.ok eosAllowed, buffers) =>
            if !ordinaryAllowed && !eosAllowed then (.error .noValidToken, buffers)
            else (.ok (), buffers)

end PreparedGrammar

/-! ## Matchers -/

/-- One owning matcher whose private row states cannot be mixed with another
grammar. -/
structure Matcher where
  prepared : PreparedGrammar
  states : List MatcherStatus
  staging : List MatcherStatus
  scratch : List ParserStateId

/-- The staging rows while a call writes them. -/
structure Staging where
  rows : List MatcherStatus
  memory : Memory

instance : HasMemory Staging := ⟨Staging.memory⟩

/-- `PreparedGrammar::initial_status`. -/
def PreparedGrammar.initialStatus (prepared : PreparedGrammar) (memory : Memory) :
    Except EngineError MatcherStatus × Memory :=
  match memory.reserve with
  | (false, memory) => (.error (.allocationFailure 1), memory)
  | (true, memory) => (.ok ⟨.running .start, [prepared.grammar.lalr.startState]⟩, memory)

/-- One row of `into_matcher`. -/
def PreparedGrammar.pushRow (prepared : PreparedGrammar)
    (built : List MatcherStatus × Staging) :
    Except EngineError Unit × List MatcherStatus × Staging :=
  match prepared.initialStatus built.2.memory with
  | (.error error, memory) => (.error error, built.1, { built.2 with memory })
  | (.ok status, memory) =>
    (.ok (), built.1 ++ [status], ⟨built.2.rows ++ [MatcherStatus.empty], memory⟩)

/-- `PreparedGrammar::into_matcher`. -/
def PreparedGrammar.intoMatcher (prepared : PreparedGrammar) (rows : ℕ) (memory : Memory) :
    Except EngineError Matcher × Memory :=
  if rows = 0 then (.error .emptyBatch, memory)
  else
    match memory.reserve with
    | (false, memory) => (.error (.allocationFailure rows), memory)
    | (true, memory) =>
      match memory.reserve with
      | (false, memory) => (.error (.allocationFailure rows), memory)
      | (true, memory) =>
        match scan rows (fun _ => prepared.pushRow) ([], ⟨[], memory⟩) with
        | (.error error, _, staging) => (.error error, staging.memory)
        | (.ok (), states, staging) =>
          (.ok ⟨prepared, states, staging.rows, []⟩, staging.memory)

/-! ### Staging -/

/-- `next_status_at`. -/
def nextStatusAt (prepared : PreparedGrammar) (state : MatcherStatus) (row : ℕ) (token : TokenId)
    (staging : Staging) : Except EngineError AdvanceResult × Staging :=
  match staging.rows[row]? with
  | none => (.error .corruptPreparedData, staging)
  | some destination =>
    match prepared.nextStatusInto state token (destination, staging.memory) with
    | (reply, destination, memory) => (reply, ⟨staging.rows.set row destination, memory⟩)

/-- `set_staging_accepted`. -/
def setStagingAccepted (row : ℕ) (staging : Staging) : Except EngineError Unit × Staging :=
  match staging.rows[row]? with
  | none => (.error .corruptPreparedData, staging)
  | some destination =>
    (.ok (), { staging with rows := staging.rows.set row destination.setAccepted })

/-- `swap_status_at`. -/
def swapStatusAt (states staging : List MatcherStatus) (row : ℕ) :
    Except EngineError Unit × List MatcherStatus × List MatcherStatus :=
  match states[row]? with
  | none => (.error .corruptPreparedData, states, staging)
  | some state =>
    match staging[row]? with
    | none => (.error .corruptPreparedData, states, staging)
    | some destination => (.ok (), states.set row destination, staging.set row state)

/-- `stage_batch_row`. -/
def stageBatchRow (prepared : PreparedGrammar) (states : List MatcherStatus)
    (tokens : List TokenId) (row : ℕ) (staged : List AdvanceResult × Staging) :
    Except EngineError Unit × List AdvanceResult × Staging :=
  match tokens[row]? with
  | none => (.error .corruptPreparedData, staged)
  | some token =>
    match states[row]? with
    | none => (.error .corruptPreparedData, staged)
    | some state =>
      match nextStatusAt prepared state row token staged.2 with
      | (.ok result, staging) => (.ok (), staged.1 ++ [result], staging)
      | (.error error, staging) => (.error error, staged.1, staging)

/-- `stage_batch`. -/
def stageBatch (prepared : PreparedGrammar) (states : List MatcherStatus) (tokens : List TokenId)
    (staged : List AdvanceResult × Staging) :
    Except EngineError Unit × List AdvanceResult × Staging :=
  scan states.length (stageBatchRow prepared states tokens) staged

/-- `stage_active_row`. -/
def stageActiveRow (prepared : PreparedGrammar) (states : List MatcherStatus)
    (tokens : List (Option TokenId)) (reportRejectedRow : Bool) (row : ℕ) (staging : Staging) :
    Except EngineError (Option AdvanceResult) × Staging :=
  match states[row]? with
  | none => (.error .corruptPreparedData, staging)
  | some state =>
    match tokens[row]? with
    | none => (.error .corruptPreparedData, staging)
    | some token =>
      match state.phase, token with
      | .accepted, none =>
        match setStagingAccepted row staging with
        | (.ok (), staging) => (.ok none, staging)
        | (.error error, staging) => (.error error, staging)
      | .accepted, some _ => (.error .completed, staging)
      | .running _, none => (.error (.missingRunningToken row), staging)
      | .running _, some token =>
        match nextStatusAt prepared state row token staging with
        | (.ok result, staging) => (.ok (some result), staging)
        | (.error (.constraintViolation token), staging) =>
          if reportRejectedRow then (.error (.batchConstraintViolation row token), staging)
          else (.error (.constraintViolation token), staging)
        | (.error error, staging) => (.error error, staging)

/-- One row of `stage_active_with_results`. -/
def stageActiveRowWithResult (prepared : PreparedGrammar) (states : List MatcherStatus)
    (tokens : List (Option TokenId)) (reportRejectedRow : Bool) (row : ℕ)
    (staged : List (Option AdvanceResult) × Staging) :
    Except EngineError Unit × List (Option AdvanceResult) × Staging :=
  match stageActiveRow prepared states tokens reportRejectedRow row staged.2 with
  | (.ok result, staging) => (.ok (), staged.1 ++ [result], staging)
  | (.error error, staging) => (.error error, staged.1, staging)

/-- `stage_active_with_results`. -/
def stageActiveWithResults (prepared : PreparedGrammar) (states : List MatcherStatus)
    (tokens : List (Option TokenId)) (reportRejectedRow : Bool)
    (staged : List (Option AdvanceResult) × Staging) :
    Except EngineError Unit × List (Option AdvanceResult) × Staging :=
  scan states.length (stageActiveRowWithResult prepared states tokens reportRejectedRow) staged

/-- One row of `stage_active_without_results`. -/
def stageActiveRowWithoutResult (prepared : PreparedGrammar) (states : List MatcherStatus)
    (tokens : List (Option TokenId)) (reportRejectedRow : Bool) (row : ℕ) (staging : Staging) :
    Except EngineError Unit × Staging :=
  match stageActiveRow prepared states tokens reportRejectedRow row staging with
  | (.ok _, staging) => (.ok (), staging)
  | (.error error, staging) => (.error error, staging)

/-- `stage_active_without_results`. -/
def stageActiveWithoutResults (prepared : PreparedGrammar) (states : List MatcherStatus)
    (tokens : List (Option TokenId)) (reportRejectedRow : Bool) (staging : Staging) :
    Except EngineError Unit × Staging :=
  scan states.length (stageActiveRowWithoutResult prepared states tokens reportRejectedRow) staging

/-! ### Masks of rows -/

/-- The mask of one row, written into its slice of the output. -/
def fillRowSlice (prepared : PreparedGrammar) (state : MatcherStatus) (row : ℕ)
    (buffers : MaskBuffers) : Except EngineError Unit × MaskBuffers :=
  match checkedMul row prepared.maskBytes with
  | none => (.error .corruptPreparedData, buffers)
  | some start =>
    match checkedAdd start prepared.maskBytes with
    | none => (.error .corruptPreparedData, buffers)
    | some stop =>
      if stop > buffers.output.length then (.error .corruptPreparedData, buffers)
      else
        let rowOutput := (buffers.output.take stop).drop start
        match prepared.fillMaskWithScratch state ⟨rowOutput, buffers.scratch⟩ with
        | (reply, written) =>
          (reply, ⟨buffers.output.take start ++ written.output ++ buffers.output.drop stop,
            written.scratch⟩)

/-- `fill_mask_row`. -/
def fillMaskRow (prepared : PreparedGrammar) (states : List MatcherStatus) (row : ℕ)
    (buffers : MaskBuffers) : Except EngineError Unit × MaskBuffers :=
  match states[row]? with
  | none => (.error .corruptPreparedData, buffers)
  | some state => fillRowSlice prepared state row buffers

/-- `fill_all_masks`. -/
def fillAllMasks (prepared : PreparedGrammar) (states : List MatcherStatus)
    (buffers : MaskBuffers) : Except EngineError Unit × MaskBuffers :=
  scan states.length (fillMaskRow prepared states) buffers

/-- `fill_selected_mask`. -/
def fillSelectedMask (prepared : PreparedGrammar) (states : List MatcherStatus) (row rows : ℕ)
    (buffers : MaskBuffers) : Except EngineError Unit × MaskBuffers :=
  match states[row]? with
  | none => (.error (.invalidRow row rows), buffers)
  | some state => prepared.fillMaskWithScratch state buffers

/-- `fill_staged_mask_row`. -/
def fillStagedMaskRow (prepared : PreparedGrammar) (staging : List MatcherStatus) (row : ℕ)
    (buffers : MaskBuffers) : Except EngineError Unit × MaskBuffers :=
  match staging[row]? with
  | none => (.error .corruptPreparedData, buffers)
  | some state =>
    match state.phase with
    | .running _ => fillRowSlice prepared state row buffers
    | .accepted => (.ok (), buffers)

/-- `fill_staged_masks`. -/
def fillStagedMasks (prepared : PreparedGrammar) (staging : List MatcherStatus)
    (buffers : MaskBuffers) : Except EngineError Unit × MaskBuffers :=
  scan staging.length (fillStagedMaskRow prepared staging) buffers

/-! ### Calls -/

namespace Matcher

variable (matcher : Matcher)

/-- `Matcher::row_count`. -/
def rowCount : ℕ := matcher.states.length

/-- `Matcher::token_count`. -/
def tokenCount : ℕ := matcher.prepared.tokenCount

/-- `Matcher::mask_bytes`. -/
def maskBytes : ℕ := matcher.prepared.maskBytes

/-- `Matcher::state`. -/
def state (row : ℕ) : Except EngineError MatcherStatus :=
  match matcher.states[row]? with
  | none => .error (.invalidRow row matcher.states.length)
  | some state => .ok state

/-- `Matcher::is_completed`. -/
def isCompleted (row : ℕ) : Except EngineError Bool :=
  match matcher.state row with
  | .error error => .error error
  | .ok state => .ok (state.phase = .accepted)

/-- Every byte is zero on failure. -/
def clearOnError (result : Except EngineError Unit) (output : List UInt8) : List UInt8 :=
  match result with
  | .ok () => output
  | .error _ => Mask.clear output

/-- Writes one LSB-first packed vocabulary mask into caller-owned storage. -/
def mask (row : ℕ) (output : List UInt8) (memory : Memory) :
    Except EngineError Unit × List UInt8 × Matcher × Memory :=
  match fillSelectedMask matcher.prepared matcher.states row matcher.states.length
      ⟨Mask.clear output, ⟨matcher.scratch, memory⟩⟩ with
  | (result, buffers) =>
    (result, clearOnError result buffers.output, { matcher with scratch := buffers.scratch.stack },
      buffers.scratch.memory)

/-- Writes every row mask into one contiguous row-major packed buffer. -/
def masks (output : List UInt8) (memory : Memory) :
    Except EngineError Unit × List UInt8 × Matcher × Memory :=
  let output := Mask.clear output
  match checkedMul matcher.states.length matcher.prepared.maskBytes with
  | none => (.error .corruptPreparedData, output, matcher, memory)
  | some required =>
    if output.length < required then
      (.error (.bufferTooSmall required output.length), output, matcher, memory)
    else
      match fillAllMasks matcher.prepared matcher.states
          ⟨output, ⟨matcher.scratch, memory⟩⟩ with
      | (result, buffers) =>
        (result, clearOnError result buffers.output,
          { matcher with scratch := buffers.scratch.stack }, buffers.scratch.memory)

/-- `Matcher::allows`. -/
def allows (row : ℕ) (token : TokenId) (memory : Memory) : Except EngineError Bool × Memory :=
  match matcher.state row with
  | .error error => (.error error, memory)
  | .ok state => matcher.prepared.allowsStatus state token memory

/-- `Matcher::advance`. -/
def advance (row : ℕ) (token : TokenId) (memory : Memory) :
    Except EngineError AdvanceResult × Matcher × Memory :=
  match matcher.states[row]? with
  | none => (.error (.invalidRow row matcher.states.length), matcher, memory)
  | some state =>
    match nextStatusAt matcher.prepared state row token ⟨matcher.staging, memory⟩ with
    | (.error error, staging) =>
      (.error error, { matcher with staging := staging.rows }, staging.memory)
    | (.ok result, staging) =>
      match swapStatusAt matcher.states staging.rows row with
      | (.ok (), states, staged) =>
        (.ok result, { matcher with states, staging := staged }, staging.memory)
      | (.error error, states, staged) =>
        (.error error, { matcher with states, staging := staged }, staging.memory)

/-- Advances every fixed-position row atomically. -/
def advanceBatch (tokens : List TokenId) (memory : Memory) :
    Except EngineError (List AdvanceResult) × Matcher × Memory :=
  if tokens.length ≠ matcher.states.length then
    (.error (.batchSizeMismatch matcher.states.length tokens.length), matcher, memory)
  else
    match memory.reserve with
    | (false, memory) => (.error (.allocationFailure matcher.states.length), matcher, memory)
    | (true, memory) =>
      match stageBatch matcher.prepared matcher.states tokens ([], ⟨matcher.staging, memory⟩) with
      | (.error error, _, staging) =>
        (.error error, { matcher with staging := staging.rows }, staging.memory)
      | (.ok (), results, staging) =>
        (.ok results, { matcher with states := staging.rows, staging := matcher.states },
          staging.memory)

/-- Atomically advances running rows while retaining already accepted rows. -/
def advanceActive (tokens : List (Option TokenId)) (memory : Memory) :
    Except EngineError (List (Option AdvanceResult)) × Matcher × Memory :=
  if tokens.length ≠ matcher.states.length then
    (.error (.batchSizeMismatch matcher.states.length tokens.length), matcher, memory)
  else
    match memory.reserve with
    | (false, memory) => (.error (.allocationFailure matcher.states.length), matcher, memory)
    | (true, memory) =>
      match stageActiveWithResults matcher.prepared matcher.states tokens false
          ([], ⟨matcher.staging, memory⟩) with
      | (.error error, _, staging) =>
        (.error error, { matcher with staging := staging.rows }, staging.memory)
      | (.ok (), results, staging) =>
        (.ok results, { matcher with states := staging.rows, staging := matcher.states },
          staging.memory)

/-- The staging pass of `advance_active_and_masks_impl`, with or without a vector
of results. -/
def stageRows (tokens : List (Option TokenId)) (results : Option (List (Option AdvanceResult)))
    (reportRejectedRow : Bool) (memory : Memory) :
    Except EngineError Unit × Option (List (Option AdvanceResult)) × Staging :=
  match results with
  | some results =>
    match stageActiveWithResults matcher.prepared matcher.states tokens reportRejectedRow
        (results, ⟨matcher.staging, memory⟩) with
    | (reply, results, staging) => (reply, some results, staging)
  | none =>
    match stageActiveWithoutResults matcher.prepared matcher.states tokens reportRejectedRow
        ⟨matcher.staging, memory⟩ with
    | (reply, staging) => (reply, none, staging)

/-- `Matcher::advance_active_and_masks_impl`. -/
def advanceActiveAndMasksImpl (tokens : List (Option TokenId)) (output : List UInt8)
    (results : Option (List (Option AdvanceResult))) (reportRejectedRow : Bool)
    (memory : Memory) :
    Except EngineError Unit × Option (List (Option AdvanceResult)) × List UInt8 × Matcher ×
      Memory :=
  let output := Mask.clear output
  if tokens.length ≠ matcher.states.length then
    (.error (.batchSizeMismatch matcher.states.length tokens.length), results, output, matcher,
      memory)
  else
    match checkedMul matcher.states.length matcher.prepared.maskBytes with
    | none => (.error .corruptPreparedData, results, output, matcher, memory)
    | some required =>
      if output.length < required then
        (.error (.bufferTooSmall required output.length), results, output, matcher, memory)
      else
        match matcher.stageRows tokens results reportRejectedRow memory with
        | (.error error, results, staging) =>
          (.error error, results, Mask.clear output, { matcher with staging := staging.rows },
            staging.memory)
        | (.ok (), results, staging) =>
          match fillStagedMasks matcher.prepared staging.rows
              ⟨output, ⟨matcher.scratch, staging.memory⟩⟩ with
          | (.error error, buffers) =>
            (.error error, results, Mask.clear buffers.output,
              { matcher with staging := staging.rows, scratch := buffers.scratch.stack },
              buffers.scratch.memory)
          | (.ok (), buffers) =>
            (.ok (), results, buffers.output,
              { matcher with states := staging.rows, staging := matcher.states,
                             scratch := buffers.scratch.stack },
              buffers.scratch.memory)

/-- Computes all successor masks and commits the fixed rows only when every
running successor has a valid mask. -/
def advanceActiveAndMasks (tokens : List (Option TokenId)) (output : List UInt8)
    (memory : Memory) :
    Except EngineError (List (Option AdvanceResult)) × List UInt8 × Matcher × Memory :=
  match memory.reserve with
  | (false, memory) =>
    (.error (.allocationFailure matcher.states.length), output, matcher, memory)
  | (true, memory) =>
    match matcher.advanceActiveAndMasksImpl tokens output (some []) false memory with
    | (.error error, _, output, matcher, memory) => (.error error, output, matcher, memory)
    | (.ok (), results, output, matcher, memory) =>
      (.ok (results.getD []), output, matcher, memory)

/-- Atomically advances running rows and writes successor masks without returning
per-row results.  A rejected token identifies its batch row. -/
def advanceActiveAndMasksNoResult (tokens : List (Option TokenId)) (output : List UInt8)
    (memory : Memory) : Except EngineError Unit × List UInt8 × Matcher × Memory :=
  match matcher.advanceActiveAndMasksImpl tokens output none true memory with
  | (reply, _, output, matcher, memory) => (reply, output, matcher, memory)

end Matcher

/-! ## Runs -/

/-- A call on a matcher.  Calls that write a mask bring the caller's buffer. -/
inductive Call where
  | isCompleted (row : ℕ)
  | mask (row : ℕ) (output : List UInt8)
  | masks (output : List UInt8)
  | allows (row : ℕ) (token : TokenId)
  | advance (row : ℕ) (token : TokenId)
  | advanceBatch (tokens : List TokenId)
  | advanceActive (tokens : List (Option TokenId))
  | advanceActiveAndMasks (tokens : List (Option TokenId)) (output : List UInt8)
  | advanceActiveAndMasksNoResult (tokens : List (Option TokenId)) (output : List UInt8)

/-- What a call returns when it succeeds. -/
inductive Value where
  | unit
  | flag (value : Bool)
  | result (result : AdvanceResult)
  | results (results : List AdvanceResult)
  | activeResults (results : List (Option AdvanceResult))
  deriving DecidableEq

/-- The value a call returned, and the caller's buffer after it. -/
structure Reply where
  value : Except EngineError Value
  written : List UInt8

namespace Matcher

/-- One call. -/
def call (matcher : Matcher) (memory : Memory) : Call → Reply × Matcher × Memory
  | .isCompleted row => (⟨(matcher.isCompleted row).map .flag, []⟩, matcher, memory)
  | .mask row output =>
    match matcher.mask row output memory with
    | (result, output, matcher, memory) =>
      (⟨result.map fun _ => .unit, output⟩, matcher, memory)
  | .masks output =>
    match matcher.masks output memory with
    | (result, output, matcher, memory) =>
      (⟨result.map fun _ => .unit, output⟩, matcher, memory)
  | .allows row token =>
    match matcher.allows row token memory with
    | (result, memory) => (⟨result.map .flag, []⟩, matcher, memory)
  | .advance row token =>
    match matcher.advance row token memory with
    | (result, matcher, memory) => (⟨result.map .result, []⟩, matcher, memory)
  | .advanceBatch tokens =>
    match matcher.advanceBatch tokens memory with
    | (result, matcher, memory) => (⟨result.map .results, []⟩, matcher, memory)
  | .advanceActive tokens =>
    match matcher.advanceActive tokens memory with
    | (result, matcher, memory) => (⟨result.map .activeResults, []⟩, matcher, memory)
  | .advanceActiveAndMasks tokens output =>
    match matcher.advanceActiveAndMasks tokens output memory with
    | (result, output, matcher, memory) => (⟨result.map .activeResults, output⟩, matcher, memory)
  | .advanceActiveAndMasksNoResult tokens output =>
    match matcher.advanceActiveAndMasksNoResult tokens output memory with
    | (result, output, matcher, memory) =>
      (⟨result.map fun _ => .unit, output⟩, matcher, memory)

/-- A sequence of calls: the replies, and the matcher after the last. -/
def run (matcher : Matcher) (memory : Memory) : List Call → List Reply × Matcher × Memory
  | [] => ([], matcher, memory)
  | c :: calls =>
    match matcher.call memory c with
    | (reply, matcher, memory) =>
      match matcher.run memory calls with
      | (replies, matcher, memory) => (reply :: replies, matcher, memory)

/-- **The reachable matchers**: those built from a prepared grammar, and what
calls make of them, whatever the allocator does. -/
inductive Reachable : Matcher → Prop
  | fresh {grammar : ValidatedGrammar} {limits : PreparationLimits} {prepared : PreparedGrammar}
      {rows : ℕ} {memory memory' : Memory} {matcher : Matcher}
      (hprepare : prepare grammar limits = .ok prepared)
      (hmatcher : prepared.intoMatcher rows memory = (.ok matcher, memory')) : Reachable matcher
  | call {matcher : Matcher} (memory : Memory) (c : Call) (h : Reachable matcher) :
      Reachable (matcher.call memory c).2.1

end Matcher
end GreatGramma
