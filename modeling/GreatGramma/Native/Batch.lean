import GreatGramma.Core.Engine

/-!
# The native batch

`NativeGrammar` and `NativeBatch` of the Python boundary: a matcher with a pad token, and two
buffers that live as long as the batch, one for the tokens of a step and one for its masks.

## Making a batch

A grammar gives out one batch.  The checks of the row count, of the pad token and of the size of
the masks come first, then two reservations for the buffers, and only then are the prepared tables
taken out of the grammar and made a matcher.  A refusal before that leaves the grammar as it was,
and one behind it does not: the tables are gone.

## A step

A step scans the caller's tokens into the first buffer, hands both to the core, and then gives
every accepted row a mask of its own, which is the pad token alone.  The scan checks the caller's
side of the protocol: a row that has ended takes the pad token and is not advanced, a running row
takes any token of the vocabulary, which is put in the slot of the row for the core.  Counting the
running rows comes last, behind the commit.

## Two sides of a method

The methods proper are the `_inner` ones.  The methods that Python sees add one thing,
`finish_batch_call`: it poisons the batch after an internal error, and copies the masks into a
Python object, whose allocation may be refused like any other.  Both kinds are calls of the model,
so what is said of every sequence of calls is said of either kind and of mixtures.
-/

namespace GreatGramma

open Reservation Traversal

/-! ## Failures -/

/-- `MAX_BATCH_ROWS`. -/
def maxBatchRows : ℕ := 4096

/-- `MAX_PACKED_MASK_BYTES`. -/
def maxPackedMaskBytes : ℕ := 256 * 1024 * 1024

/-- The codes of the native failures of a batch. -/
inductive NativeCode where
  | configurationError
  | sequenceDiscontinuity
  | constraintViolation
  | sequenceCompleted
  | noValidToken
  | internalError
  deriving DecidableEq

/-- What crosses the boundary instead of a result. -/
structure NativeFailure where
  code : NativeCode
  message : String
  row : Option ℕ
  token : Option TokenId
  deriving DecidableEq

namespace NativeFailure

/-- `NativeFailure::new`. -/
def new (code : NativeCode) (message : String) : NativeFailure := ⟨code, message, none, none⟩

/-- `NativeFailure::at_row`. -/
def atRow (failure : NativeFailure) (row : ℕ) : NativeFailure := { failure with row := some row }

/-- `NativeFailure::for_token`. -/
def forToken (failure : NativeFailure) (token : TokenId) : NativeFailure :=
  { failure with token := some token }

/-- `NativeFailure::internal`. -/
def internal (message : String) : NativeFailure := .new .internalError message

end NativeFailure

/-- `map_engine_error`. -/
def mapEngineError (error : EngineError) : NativeFailure :=
  match error with
  | .batchConstraintViolation row token =>
    ((NativeFailure.new .constraintViolation "token is rejected by the grammar").atRow row).forToken
      token
  | .invalidToken token | .constraintViolation token =>
    (NativeFailure.new .constraintViolation s!"core rejected token TokenId({token})").forToken token
  | .completed => .new .sequenceCompleted "the grammar has already accepted EOS"
  | .invalidRow row rows =>
    .internal s!"core row {row} is outside a matcher with {rows} rows"
  | .emptyBatch => .new .configurationError "the matcher batch is empty"
  | .batchSizeMismatch expected actual =>
    .new .sequenceDiscontinuity s!"expected {expected} rows, received {actual}"
  | .missingRunningToken row => .internal s!"native batch omitted running row {row}"
  | .bufferTooSmall required actual =>
    .internal s!"native mask buffer has {actual} bytes but core requires {required}"
  | .noValidToken => .new .noValidToken "the grammar has no legal next token"
  | .allocationFailure requested =>
    .internal s!"native allocation failed for {requested} items"
  | .corruptPreparedData => .internal "core reported corrupt prepared data"

/-! ## Byte buffers -/

/-- `set_packed_bit`. -/
def setPackedBit (output : List UInt8) (token : TokenId) :
    Except NativeFailure Unit × List UInt8 :=
  match output[token / 8]? with
  | none => (.error (.internal "pad token mask index is invalid"), output)
  | some byte => (.ok (), output.set (token / 8) (byte ||| 1 <<< UInt8.ofNat (token % 8)))

/-- `zeroed_bytes`. -/
def zeroedBytes (length : ℕ) (memory : Memory) : Except NativeFailure (List UInt8) × Memory :=
  if length > maxPackedMaskBytes then
    (.error (.new .configurationError
      s!"packed batch mask needs {length} bytes, maximum is {maxPackedMaskBytes}"), memory)
  else
    match memory.reserve with
    | (false, memory) => (.error (.internal "could not reserve the packed batch mask"), memory)
    | (true, memory) => (.ok (List.replicate length 0), memory)

/-! ## Batches -/

/-- A compiled grammar, until a batch takes it. -/
structure NativeGrammar where
  prepared : Option PreparedGrammar
  vocabSize : ℕ
  /-- The grammar was prepared by the core, from a table of `vocabSize` tokens. -/
  compiled : ∀ p, prepared = some p →
    (∃ grammar limits, prepare grammar limits = .ok p) ∧ vocabSize = p.tokenCount

/-- A batch of rows that share one matcher. -/
structure NativeBatch where
  matcher : Matcher
  padTokenId : Option TokenId
  activeTokens : List (Option TokenId)
  maskBuffer : List UInt8
  poisoned : Bool

namespace NativeGrammar

/-- The grammar with its prepared tables taken out. -/
def take (grammar : NativeGrammar) : NativeGrammar :=
  ⟨none, grammar.vocabSize, fun _ h => by cases h⟩

/-- The refusal of a second session. -/
def sessionTaken : NativeFailure :=
  .new .sequenceDiscontinuity "a compiled grammar can create only one active generation session"

/-- The checks of `new_batch_inner` that come before it looks at the grammar. -/
def checkBatch (grammar : NativeGrammar) (rows : ℕ) (padTokenId : Option TokenId) :
    Except NativeFailure Unit :=
  if rows = 0 then
    .error (.new .configurationError "the generation batch must contain at least one row")
  else if rows > maxBatchRows then
    .error (.new .configurationError s!"the generation batch exceeds {maxBatchRows} rows")
  else if rows > 1 ∧ padTokenId = none then
    .error (.new .configurationError "batches larger than one require a pad token ID")
  else
    match padTokenId with
    | none => .ok ()
    | some pad =>
      if pad ≥ grammar.vocabSize then
        .error ((NativeFailure.new .configurationError
          "the pad token ID is outside the compiled vocabulary").forToken pad)
      else .ok ()

/-- `NativeGrammar::new_batch_inner`. -/
def newBatchInner (grammar : NativeGrammar) (rows : ℕ) (padTokenId : Option TokenId)
    (memory : Memory) : Except NativeFailure NativeBatch × NativeGrammar × Memory :=
  match grammar.checkBatch rows padTokenId with
  | .error error => (.error error, grammar, memory)
  | .ok () =>
    match grammar.prepared with
    | none => (.error sessionTaken, grammar, memory)
    | some prepared =>
      match checkedMul rows prepared.maskBytes with
      | none => (.error (.new .configurationError "packed mask size overflow"), grammar, memory)
      | some packedBytes =>
        if packedBytes > maxPackedMaskBytes then
          (.error (.new .configurationError
            s!"packed batch mask needs {packedBytes} bytes, maximum is {maxPackedMaskBytes}"),
            grammar, memory)
        else
          match memory.reserve with
          | (false, memory) =>
            (.error (.internal "could not reserve native batch tokens"), grammar, memory)
          | (true, memory) =>
            match zeroedBytes packedBytes memory with
            | (.error error, memory) => (.error error, grammar, memory)
            | (.ok maskBuffer, memory) =>
              match prepared.intoMatcher rows memory with
              | (.error error, memory) => (.error (mapEngineError error), grammar.take, memory)
              | (.ok matcher, memory) =>
                (.ok ⟨matcher, padTokenId, List.replicate rows none, maskBuffer, false⟩,
                  grammar.take, memory)

end NativeGrammar

/-! ## Steps -/

namespace NativeBatch

variable (batch : NativeBatch)

/-- `NativeBatch::ensure_live`. -/
def ensureLive : Except NativeFailure Unit :=
  if batch.poisoned then
    .error (.internal "the native batch is poisoned after an earlier internal failure")
  else .ok ()

/-- `NativeBatch::initial_masks_inner`. -/
def initialMasksInner (memory : Memory) : Except NativeFailure Unit × NativeBatch × Memory :=
  match batch.ensureLive with
  | .error error => (.error error, batch, memory)
  | .ok () =>
    match batch.matcher.masks batch.maskBuffer memory with
    | (result, maskBuffer, matcher, memory) =>
      (result.mapError mapEngineError, { batch with matcher, maskBuffer }, memory)

/-- Writes a slot of `active_tokens`. -/
def setActive (row : ℕ) (token : Option TokenId) (activeTokens : List (Option TokenId)) :
    Except NativeFailure Unit × List (Option TokenId) :=
  if row < activeTokens.length then (.ok (), activeTokens.set row token)
  else (.error (.internal "missing native batch token slot"), activeTokens)

/-- One row of the scan of the caller's tokens. -/
def stageToken (tokens : List TokenId) (row : ℕ) (activeTokens : List (Option TokenId)) :
    Except NativeFailure Unit × List (Option TokenId) :=
  match tokens[row]? with
  | none => (.error (.internal "missing copied token"), activeTokens)
  | some token =>
    if token ≥ batch.matcher.tokenCount then
      (.error (((NativeFailure.new .constraintViolation
        "token ID is outside the compiled vocabulary").atRow row).forToken token), activeTokens)
    else
      match batch.matcher.isCompleted row with
      | .error error => (.error ((mapEngineError error).atRow row), activeTokens)
      | .ok true =>
        if batch.padTokenId = some token then setActive row none activeTokens
        else
          (.error (((NativeFailure.new .sequenceCompleted
            "an accepted row permits only its configured pad token").atRow row).forToken token),
            activeTokens)
      | .ok false => setActive row (some token) activeTokens

/-- The scan of the caller's tokens into `active_tokens`. -/
def stageTokens (tokens : List TokenId) : Except NativeFailure Unit × NativeBatch :=
  match scan tokens.length (batch.stageToken tokens) batch.activeTokens with
  | (result, activeTokens) => (result, { batch with activeTokens })

/-- The core call of a step, in a mask buffer of the size it needs. -/
def commitTokens (memory : Memory) : Except NativeFailure Unit × NativeBatch × Memory :=
  match checkedMul batch.matcher.rowCount batch.matcher.maskBytes with
  | none => (.error (.internal "packed mask size overflow"), batch, memory)
  | some length =>
    if batch.maskBuffer.length ≠ length then
      (.error (.internal "native mask buffer has an invalid fixed size"), batch, memory)
    else
      match batch.matcher.advanceActiveAndMasksNoResult batch.activeTokens batch.maskBuffer
          memory with
      | (result, maskBuffer, matcher, memory) =>
        (result.mapError mapEngineError, { batch with matcher, maskBuffer }, memory)

/-- One row behind the core call: an accepted row gets the bit of the pad token, and the
running rows are counted. -/
def padRow (row : ℕ) (padded : ℕ × List UInt8) : Except NativeFailure Unit × ℕ × List UInt8 :=
  match batch.matcher.isCompleted row with
  | .error error => (.error ((mapEngineError error).atRow row), padded)
  | .ok false => (.ok (), padded.1 + 1, padded.2)
  | .ok true =>
    match batch.padTokenId with
    | none =>
      (.error ((NativeFailure.new .sequenceCompleted
        "an accepted row has no configured pad token").atRow row), padded)
    | some pad =>
      match checkedMul row batch.matcher.maskBytes with
      | none => (.error (.internal "packed mask offset overflow"), padded)
      | some start =>
        match checkedAdd start batch.matcher.maskBytes with
        | none => (.error (.internal "packed mask offset overflow"), padded)
        | some stop =>
          if stop > padded.2.length then (.error (.internal "invalid packed mask row"), padded)
          else
            match setPackedBit ((padded.2.take stop).drop start) pad with
            | (.error error, _) => (.error (error.atRow row), padded)
            | (.ok (), rowOutput) =>
              (.ok (), padded.1, padded.2.take start ++ rowOutput ++ padded.2.drop stop)

/-- What a step does behind the core call. -/
def padAccepted : Except NativeFailure Unit × NativeBatch :=
  match scan batch.matcher.rowCount batch.padRow (0, batch.maskBuffer) with
  | (.error error, _, maskBuffer) => (.error error, { batch with maskBuffer })
  | (.ok (), running, maskBuffer) =>
    if running = 0 then
      (.error (.new .sequenceCompleted "every generation row has already accepted EOS"),
        { batch with maskBuffer })
    else (.ok (), { batch with maskBuffer })

/-- A step up to the core call, and with it. -/
def advanceInner (tokens : List TokenId) (memory : Memory) :
    Except NativeFailure Unit × NativeBatch × Memory :=
  match batch.ensureLive with
  | .error error => (.error error, batch, memory)
  | .ok () =>
    if tokens.length ≠ batch.matcher.rowCount then
      (.error (.new .sequenceDiscontinuity
        s!"expected {batch.matcher.rowCount} fixed rows, received {tokens.length}"), batch, memory)
    else
      match batch.stageTokens tokens with
      | (.error error, batch) => (.error error, batch, memory)
      | (.ok (), batch) => batch.commitTokens memory

/-- `NativeBatch::advance_and_masks_inner`. -/
def advanceAndMasksInner (tokens : List TokenId) (memory : Memory) :
    Except NativeFailure Unit × NativeBatch × Memory :=
  match batch.advanceInner tokens memory with
  | (.error error, batch, memory) => (.error error, batch, memory)
  | (.ok (), batch, memory) =>
    match batch.padAccepted with
    | (result, batch) => (result, batch, memory)

/-! ## Calls -/

/-- `finish_batch_call`: the masks as a Python object. -/
def finishBatchCall (result : Except NativeFailure Unit) (memory : Memory) :
    Except NativeFailure (List UInt8) × NativeBatch × Memory :=
  match result with
  | .ok () =>
    match memory.reserve with
    | (true, memory) => (.ok batch.maskBuffer, batch, memory)
    | (false, memory) =>
      (.error (.internal "could not allocate Python mask bytes"), { batch with poisoned := true },
        memory)
  | .error error =>
    (.error error,
      { batch with poisoned := if error.code = .internalError then true else batch.poisoned },
      memory)

/-- `NativeBatch::initial_masks`. -/
def initialMasks (memory : Memory) : Except NativeFailure (List UInt8) × NativeBatch × Memory :=
  match batch.initialMasksInner memory with
  | (result, batch, memory) => batch.finishBatchCall result memory

/-- `NativeBatch::advance_and_masks`. -/
def advanceAndMasks (tokens : List TokenId) (memory : Memory) :
    Except NativeFailure (List UInt8) × NativeBatch × Memory :=
  match batch.advanceAndMasksInner tokens memory with
  | (result, batch, memory) => batch.finishBatchCall result memory

end NativeBatch

/-- A call on a batch, from Rust or from Python. -/
inductive NativeCall where
  | initialMasksInner
  | advanceAndMasksInner (tokens : List TokenId)
  | initialMasks
  | advanceAndMasks (tokens : List TokenId)

namespace NativeBatch

/-- The batch after a call. -/
def call (batch : NativeBatch) (memory : Memory) : NativeCall → NativeBatch × Memory
  | .initialMasksInner => (batch.initialMasksInner memory).2
  | .advanceAndMasksInner tokens => (batch.advanceAndMasksInner tokens memory).2
  | .initialMasks => (batch.initialMasks memory).2
  | .advanceAndMasks tokens => (batch.advanceAndMasks tokens memory).2

/-- The batch after a sequence of calls. -/
def run (batch : NativeBatch) (memory : Memory) : List NativeCall → NativeBatch × Memory
  | [] => (batch, memory)
  | c :: calls => run (batch.call memory c).1 (batch.call memory c).2 calls

/-- **The reachable batches**: those that a compiled grammar gives out, and what calls
make of them, whatever they answer and whatever the allocator does. -/
inductive Reachable : NativeBatch → Prop
  | fresh {grammar : NativeGrammar} {rows : ℕ} {padTokenId : Option TokenId} {memory : Memory}
      {batch : NativeBatch}
      (h : (grammar.newBatchInner rows padTokenId memory).1 = .ok batch) : Reachable batch
  | call {batch : NativeBatch} (memory : Memory) (c : NativeCall) (h : Reachable batch) :
      Reachable (batch.call memory c).1

end NativeBatch
end GreatGramma
