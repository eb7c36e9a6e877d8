import GreatGramma.Engine.Heads
import GreatGramma.Library.FirstError
import GreatGramma.Library.PackedBits

/-!
# Rows without buffers

What the matcher is for, said without its buffers: a list of rows, and for every call a reply and
the rows after it.  There is no staging, no scratch stack and no allocator here; a row is a lexer
state with a parser stack, or it is accepted.

## The layers

The layers are those of the engine.

* A token is allowed on a running row when some bucket of the inverse row that holds it has a
  readable head.
* The mask is the tokens of the readable buckets with the accepted EOS tokens.
* A batch is the pointwise advance of its rows, up to the first that fails.
* The fused call is the batch followed by the masks of its running rows.

`PreparedGrammar.respond` is the result: one call on a list of rows.

## What is kept of the source

This is an abstraction of the matcher and not of the tables.  It looks tokens up in the buckets
and decides heads by the same classifications, so that the errors are those of the engine and come
in the same order: a batch fails with its first row that fails, a search with the first bucket
that does not refuse.  What the tables mean is a matter of its own (`Engine.Answers`).  All
functions are pure and computable, and a run of them is a fold over the calls.
-/

namespace GreatGramma

open Reservation ShiftReduce Traversal

/-! ## One row -/

namespace PreparedGrammar

variable (prepared : PreparedGrammar)

/-- The answer of a bucket: whether its head is readable. -/
def bucketAnswer (stack : List ParserStateId) (bucket : InverseBucket) : Except EngineError Bool :=
  match prepared.spanner.sequence bucket.sequence with
  | none => .error .corruptPreparedData
  | some head => prepared.headAnswer stack head

/-- Whether an ordinary token is allowed: the first bucket that holds it and answers
`true`. -/
def tokenAnswer (lexer : LexerState) (stack : List ParserStateId) (token : TokenId) :
    Except EngineError Bool :=
  (prepared.inverseRow lexer).anyM fun bucket =>
    if bucket.tokens.contains token then prepared.bucketAnswer stack bucket else .ok false

/-- Whether the parser accepts at the end, after what the lexer flushes. -/
def eosAnswer (stack : List ParserStateId) (emitted : List TerminalId) : Except EngineError Bool :=
  match prepared.grammar.lalr.table.parse stack
      (emitted ++ [prepared.grammar.lalr.eofTerminal]) with
  | .accepted _ => .ok true
  | .fault f => .error (mapParserError (prepared.grammar.lalr.faultError f))
  | _ => .ok false

/-- The stack after the terminals that a token emits. -/
def stackAfter (stack : List ParserStateId) (emitted : List TerminalId) : List ParserStateId :=
  match prepared.grammar.lalr.table.parse stack emitted with
  | .live stack' => stack'
  | _ => []

/-- What the lexer makes of a token. -/
def effectOf (lexer : LexerState) (token : TokenId) : Option TokenExecution :=
  (prepared.grammar.token token).bind (prepared.grammar.tokenEffect lexer)

/-- The row after a token, if the row takes it. -/
def rowAfter (lexer : LexerState) (stack : List ParserStateId) (token : TokenId) :
    Except EngineError (Option MatcherStatus) :=
  match prepared.effectOf lexer token with
  | none => .ok none
  | some (.continue lexer' emitted) =>
    (prepared.tokenAnswer lexer stack token).map fun allowed =>
      if allowed then some ⟨.running lexer', prepared.stackAfter stack emitted⟩ else none
  | some (.finished emitted _) =>
    (prepared.eosAnswer stack emitted).map fun accepted =>
      if accepted then some .empty else none

end PreparedGrammar

/-- What advancing reports about the row it leads to. -/
def MatcherStatus.result (status : MatcherStatus) : AdvanceResult :=
  match status.phase with
  | .running _ => .continue
  | .accepted => .accepted

namespace PreparedGrammar

variable (prepared : PreparedGrammar)

/-- Advancing one row by one token. -/
def advanceRow (status : MatcherStatus) (token : TokenId) :
    Except EngineError (AdvanceResult × MatcherStatus) :=
  match status.phase with
  | .accepted => .error .completed
  | .running lexer =>
    if token ≥ prepared.grammar.tokenCount then .error (.invalidToken token)
    else
      match prepared.rowAfter lexer status.parserStack token with
      | .error error => .error error
      | .ok none => .error (.constraintViolation token)
      | .ok (some status') => .ok (status'.result, status')

/-- Asking one row about one token. -/
def allowsRow (status : MatcherStatus) (token : TokenId) : Except EngineError Bool :=
  match status.phase with
  | .accepted => .error .completed
  | .running lexer =>
    if token ≥ prepared.grammar.tokenCount then .error (.invalidToken token)
    else (prepared.rowAfter lexer status.parserStack token).map Option.isSome

/-- Whether a token is an EOS token that is accepted. -/
def eosTokenAnswer (lexer : LexerState) (stack : List ParserStateId) (token : TokenId) :
    Except EngineError Bool :=
  match prepared.effectOf lexer token with
  | some (.finished emitted _) => prepared.eosAnswer stack emitted
  | _ => .ok false

/-- The tokens of the mask of a running row. -/
def maskTokens (lexer : LexerState) (stack : List ParserStateId) :
    Except EngineError (List TokenId) :=
  match select (prepared.bucketAnswer stack) (prepared.inverseRow lexer) with
  | .error error => .error error
  | .ok buckets =>
    match select (prepared.eosTokenAnswer lexer stack)
        (List.range prepared.grammar.tokenCount) with
    | .error error => .error error
    | .ok ends => .ok (buckets.flatMap InverseBucket.tokens ++ ends)

/-- The mask of one row, in a buffer of the given length. -/
def maskRow (length : ℕ) (status : MatcherStatus) : Except EngineError (List TokenId) :=
  match status.phase with
  | .accepted => .error .completed
  | .running lexer =>
    if length < prepared.maskBytes then .error (.bufferTooSmall prepared.maskBytes length)
    else
      match prepared.maskTokens lexer status.parserStack with
      | .error error => .error error
      | .ok [] => .error .noValidToken
      | .ok tokens => .ok tokens

/-- The mask of a successor row: an accepted row has none. -/
def successorMask (status : MatcherStatus) : Except EngineError (List TokenId) :=
  match status.phase with
  | .accepted => .ok []
  | .running _ => prepared.maskRow prepared.maskBytes status

/-- The bytes of a mask. -/
def packMask (length : ℕ) (tokens : List TokenId) : List UInt8 :=
  tokens.foldl PackedBits.insert (List.replicate length 0)

/-- The bytes of several masks, row after row, and zeros up to the length. -/
def packMasks (length : ℕ) (masks : List (List TokenId)) : List UInt8 :=
  (masks.map (packMask prepared.maskBytes)).flatten ++
    List.replicate (length - masks.length * prepared.maskBytes) 0

/-! ## Batches -/

/-- Advancing one row of a batch in which accepted rows have no token. -/
def advanceActiveRow (reportRejectedRow : Bool) (row : ℕ) (status : MatcherStatus)
    (token : Option TokenId) : Except EngineError (Option AdvanceResult × MatcherStatus) :=
  match status.phase, token with
  | .accepted, none => .ok (none, .empty)
  | .accepted, some _ => .error .completed
  | .running _, none => .error (.missingRunningToken row)
  | .running _, some token =>
    match prepared.advanceRow status token with
    | .ok (result, status') => .ok (some result, status')
    | .error (.constraintViolation token) =>
      if reportRejectedRow then .error (.batchConstraintViolation row token)
      else .error (.constraintViolation token)
    | .error error => .error error

/-- Advancing every row. -/
def advanceRows (states : List MatcherStatus) (tokens : List TokenId) :
    Except EngineError (List (AdvanceResult × MatcherStatus)) :=
  (states.zip tokens).mapM fun entry => prepared.advanceRow entry.1 entry.2

/-- Advancing every running row. -/
def advanceActiveRows (reportRejectedRow : Bool) (states : List MatcherStatus)
    (tokens : List (Option TokenId)) :
    Except EngineError (List (Option AdvanceResult × MatcherStatus)) :=
  (states.zip tokens).zipIdx.mapM fun entry =>
    prepared.advanceActiveRow reportRejectedRow entry.2 entry.1.1 entry.1.2

/-- The masks of all successor rows. -/
def advanceAndMaskRows (reportRejectedRow : Bool) (states : List MatcherStatus)
    (tokens : List (Option TokenId)) (length : ℕ) :
    Except EngineError (List (Option AdvanceResult × MatcherStatus) × List (List TokenId)) :=
  if tokens.length ≠ states.length then
    .error (.batchSizeMismatch states.length tokens.length)
  else
    match checkedMul states.length prepared.maskBytes with
    | none => .error .corruptPreparedData
    | some required =>
      if length < required then .error (.bufferTooSmall required length)
      else
        match prepared.advanceActiveRows reportRejectedRow states tokens with
        | .error error => .error error
        | .ok staged =>
          match (staged.map Prod.snd).mapM prepared.successorMask with
          | .error error => .error error
          | .ok masks => .ok (staged, masks)

/-! ## Calls -/

/-- One call on a list of rows: the reply, and the rows after it. -/
def respond (states : List MatcherStatus) : Call → Reply × List MatcherStatus
  | .isCompleted row =>
    match states[row]? with
    | none => (⟨.error (.invalidRow row states.length), []⟩, states)
    | some status => (⟨.ok (.flag (status.phase = .accepted)), []⟩, states)
  | .mask row output =>
    match states[row]? with
    | none => (⟨.error (.invalidRow row states.length), Mask.clear output⟩, states)
    | some status =>
      match prepared.maskRow output.length status with
      | .error error => (⟨.error error, Mask.clear output⟩, states)
      | .ok tokens => (⟨.ok .unit, packMask output.length tokens⟩, states)
  | .masks output =>
    match checkedMul states.length prepared.maskBytes with
    | none => (⟨.error .corruptPreparedData, Mask.clear output⟩, states)
    | some required =>
      if output.length < required then
        (⟨.error (.bufferTooSmall required output.length), Mask.clear output⟩, states)
      else
        match states.mapM (prepared.maskRow prepared.maskBytes) with
        | .error error => (⟨.error error, Mask.clear output⟩, states)
        | .ok masks => (⟨.ok .unit, prepared.packMasks output.length masks⟩, states)
  | .allows row token =>
    match states[row]? with
    | none => (⟨.error (.invalidRow row states.length), []⟩, states)
    | some status => (⟨(prepared.allowsRow status token).map .flag, []⟩, states)
  | .advance row token =>
    match states[row]? with
    | none => (⟨.error (.invalidRow row states.length), []⟩, states)
    | some status =>
      match prepared.advanceRow status token with
      | .error error => (⟨.error error, []⟩, states)
      | .ok (result, status') => (⟨.ok (.result result), []⟩, states.set row status')
  | .advanceBatch tokens =>
    if tokens.length ≠ states.length then
      (⟨.error (.batchSizeMismatch states.length tokens.length), []⟩, states)
    else
      match prepared.advanceRows states tokens with
      | .error error => (⟨.error error, []⟩, states)
      | .ok staged => (⟨.ok (.results (staged.map Prod.fst)), []⟩, staged.map Prod.snd)
  | .advanceActive tokens =>
    if tokens.length ≠ states.length then
      (⟨.error (.batchSizeMismatch states.length tokens.length), []⟩, states)
    else
      match prepared.advanceActiveRows false states tokens with
      | .error error => (⟨.error error, []⟩, states)
      | .ok staged => (⟨.ok (.activeResults (staged.map Prod.fst)), []⟩, staged.map Prod.snd)
  | .advanceActiveAndMasks tokens output =>
    match prepared.advanceAndMaskRows false states tokens output.length with
    | .error error => (⟨.error error, Mask.clear output⟩, states)
    | .ok (staged, masks) =>
      (⟨.ok (.activeResults (staged.map Prod.fst)), prepared.packMasks output.length masks⟩,
        staged.map Prod.snd)
  | .advanceActiveAndMasksNoResult tokens output =>
    match prepared.advanceAndMaskRows true states tokens output.length with
    | .error error => (⟨.error error, Mask.clear output⟩, states)
    | .ok (staged, masks) =>
      (⟨.ok .unit, prepared.packMasks output.length masks⟩, staged.map Prod.snd)

end PreparedGrammar
end GreatGramma
