import GreatGramma.Native.Failures
import GreatGramma.Processor.Objects

/-!
# The logits processor

`GreatGrammaLogitsProcessor` is called between the steps of a generation loop, each time with all
the tokens there are so far.  It compares them with those of its last call that succeeded, hands
the last column to its native batch, and applies the masks it gets to the scores.  In direct use it
compares whole rows; `_trusted_fixed_append` is the promise of a caller that only appends, and then
it looks at the shape and the last column alone.

## Three phases

A call goes through three phases, which have their own definitions here.

1. `prepareCall` reads the arguments and decides on the native call; it changes nothing.
2. `serve` is the native call.
3. `finish` applies the masks and only then commits the new history.

A failure of the second or third phase may poison the processor, as in the source: when the batch
has gone on and the history has not.

## Parameters

The masker is a parameter, and so is what it makes of scores.  It may fail with an exception of the
package, with another one, or with one that is no `Exception`, and the three are treated
differently.  The lock that refuses a call while another is under way is the subject of
`Processor.Concurrency`.
-/

namespace GreatGramma

open Reservation Traversal

/-! ## Arguments -/

/-- `input_ids`, by the three views that the processor has of it: what it gives as nested
lists, its shape, and its last column, unless that raises. -/
structure InputIds where
  value : RawArray
  shape : RawRow
  lastColumn : Option RawRow

/-- An array of integers, whose views agree. -/
def InputIds.ofRows (rows : List (List ℤ)) : InputIds :=
  ⟨.ofRows rows, .sequence [.int rows.length, .int (rows.head?.getD []).length],
    some (.sequence (rows.map fun row => .int (row.getLast?.getD 0)))⟩

/-- `scores`: their shape, and what the masker makes use of. -/
structure Scores (S : Type) where
  shape : RawRow
  values : S

/-- Scores of a shape, for a masker that does not look at them. -/
def Scores.ofShape (rows width : ℤ) : Scores Unit := ⟨.sequence [.int rows, .int width], ()⟩

/-- How a masker fails: with an exception of the package, with another `Exception`, or with a
`BaseException` such as an interrupt. -/
inductive MaskFailure where
  | own (error : GreatGrammaError)
  | exception (text : String)
  | base
  deriving DecidableEq

/-- `_masker(scores, packed, rows, vocab_size)`. -/
abbrev Masker (S R : Type) : Type :=
  S → List UInt8 → ℕ → ℕ → Except MaskFailure R

/-! ## The processor -/

/-- `GreatGrammaLogitsProcessor`, without its masker and its lock. -/
structure LogitsProcessor where
  prompt : List (List ℤ)
  previous : Option (List (List ℤ))
  vocabSize : ℕ
  trustedFixedAppend : Bool
  previousWidth : Option ℤ
  scoreVocabSize : Option ℤ
  poisoned : Bool
  batch : NativeBatch

/-- Token ids outside of the compiled vocabulary. -/
def outsideVocabulary (vocabSize : ℕ) (token : ℤ) : Bool :=
  token < 0 ∨ token ≥ vocabSize

/-- The check of the prompt. -/
def checkPrompt (vocabSize : ℕ) (promptRows : List (List ℤ)) : Except GreatGrammaError Unit :=
  checkEach (fun row rowIndex =>
    if row.any (outsideVocabulary vocabSize) then
      .error { GreatGrammaError.new .configurationError
        "prompt token ID is outside the compiled vocabulary" with row := some (rowIndex : ℕ) }
    else .ok ()) promptRows

/-- `GreatGrammaLogitsProcessor.__init__`. -/
def LogitsProcessor.init (native : NativeGrammar) (prompt : RawArray)
    (padTokenId : Option TokenId) (trustedFixedAppend : Bool) (memory : Memory) :
    Except Raised LogitsProcessor × NativeGrammar × Memory :=
  match parseRows "prompt" prompt with
  | .error raised => (.error raised, native, memory)
  | .ok promptRows =>
    match checkPrompt native.vocabSize promptRows with
    | .error error => (.error (.own error), native, memory)
    | .ok _ =>
      match native.newBatchInner promptRows.length padTokenId memory with
      | (.error failure, native', memory) =>
        (.error (.own (fromNative failure.intoPyerr none)), native', memory)
      | (.ok batch, native', memory) =>
        (.ok ⟨promptRows, none, native.vocabSize, trustedFixedAppend, none, none, false, batch⟩,
          native', memory)

/-- `CompiledGrammar`. -/
structure CompiledGrammar where
  native : NativeGrammar
  eosTokenIds : List TokenId

/-- `CompiledGrammar.logits_processor`. -/
def CompiledGrammar.logitsProcessor (compiled : CompiledGrammar) (prompt : RawArray)
    (padTokenId : PyObject) (trustedFixedAppend : Bool) (memory : Memory) :
    Except Raised LogitsProcessor × CompiledGrammar × Memory :=
  let outside : GreatGrammaError := { GreatGrammaError.new .configurationError
    "pad_token_id must be inside the compiled vocabulary" with token := padTokenId.exactInt }
  match padTokenId with
  | .none =>
    match LogitsProcessor.init compiled.native prompt none trustedFixedAppend memory with
    | (result, native, memory) => (result, { compiled with native }, memory)
  | .int pad =>
    if outsideVocabulary compiled.native.vocabSize pad then
      (.error (.own outside), compiled, memory)
    else
      match LogitsProcessor.init compiled.native prompt (some pad.toNat) trustedFixedAppend
          memory with
      | (result, native, memory) => (result, { compiled with native }, memory)
  | _ => (.error (.own outside), compiled, memory)

/-! ## The first phase -/

/-- What a call has read off its arguments. -/
structure Checked where
  parsedRows : Option (List (List ℤ))
  rowCount : ℤ
  position : ℤ
  scoreVocab : ℤ

/-- The native call that a call leads to. -/
inductive Plan where
  | initialMasks
  | advance (tokens : List TokenId)

namespace LogitsProcessor

variable (processor : LogitsProcessor)

/-- The rows that a call reads, their number and their width. -/
def readRows (input : InputIds) : Except Raised (Option (List (List ℤ)) × ℤ × ℤ) :=
  if processor.trustedFixedAppend ∧ processor.previousWidth ≠ none then
    (inputShape input.shape).map fun shape => (none, shape)
  else
    (parseRows "input_ids" input.value).map fun rows =>
      (some rows, rows.length, (rows.head?.getD []).length)

/-- The checks of a call before it looks at its history. -/
def checkArguments (input : InputIds) (scoresShape : RawRow) : Except Raised Checked :=
  if processor.poisoned then
    .error (.own (.new .internalError
      "the logits processor is poisoned after an earlier internal failure"))
  else
    match processor.readRows input with
    | .error raised => .error raised
    | .ok (parsedRows, rowCount, position) =>
      match scoreShape scoresShape with
      | .error raised => .error raised
      | .ok (scoreRows, scoreVocab) =>
        if rowCount ≠ processor.prompt.length then
          .error (.own (.new .sequenceDiscontinuityError "the generation row count changed"))
        else if scoreRows ≠ processor.prompt.length ∨ scoreVocab < processor.vocabSize then
          .error (.own (.new .configurationError
            "scores do not match the fixed batch or are narrower than the compiled vocabulary"))
        else if processor.scoreVocabSize ≠ none ∧ processor.scoreVocabSize ≠ some scoreVocab then
          .error (.own (.new .configurationError
            "scores vocabulary width changed during generation"))
        else .ok ⟨parsedRows, rowCount, position, scoreVocab⟩

/-- The refusal of rows that do not extend their history, at a row or at none. -/
def notExtended (row : Option ℤ) (position : ℤ) : Raised :=
  .own { GreatGrammaError.new .sequenceDiscontinuityError
    "each fixed row must extend its prior prefix by exactly one token" with
    row, position := some position }

/-- One generated token. -/
def checkToken (position : ℤ) (rowIndex : ℕ) (token : ℤ) : Except Raised TokenId :=
  if outsideVocabulary processor.vocabSize token then
    .error (.own { GreatGrammaError.new .constraintViolationError
      "generated token ID is outside the compiled vocabulary" with
      row := some rowIndex, token := some token, position := some position })
  else .ok token.toNat

/-- The generated tokens of a caller that is trusted. -/
def checkTokens (position : ℤ) : ℕ → List ℤ → Except Raised (List TokenId)
  | _, [] => .ok []
  | rowIndex, token :: rest =>
    match processor.checkToken position rowIndex token with
    | .error raised => .error raised
    | .ok token =>
      match checkTokens position (rowIndex + 1) rest with
      | .error raised => .error raised
      | .ok tokens => .ok (token :: tokens)

/-- The generated tokens, where every row is compared with its history. -/
def extendedTokens (position : ℤ) :
    ℕ → List (List ℤ) → List (List ℤ) → Except Raised (List TokenId)
  | _, [], [] => .ok []
  | rowIndex, previous :: previousRest, current :: currentRest =>
    if current.length ≠ previous.length + 1 ∨ current.dropLast ≠ previous then
      .error (notExtended (some rowIndex) position)
    else
      match current.getLast? with
      | none => .error .foreign
      | some token =>
        match processor.checkToken position rowIndex token with
        | .error raised => .error raised
        | .ok token =>
          match extendedTokens position (rowIndex + 1) previousRest currentRest with
          | .error raised => .error raised
          | .ok tokens => .ok (token :: tokens)
  -- `zip(..., strict=True)` raises a `ValueError`
  | _, _, _ => .error .foreign

/-- The check of a call against its history. -/
def planCall (input : InputIds) (checked : Checked) : Except Raised Plan :=
  match processor.previousWidth with
  | none =>
    if checked.parsedRows ≠ some processor.prompt then
      .error (.own { GreatGrammaError.new .sequenceDiscontinuityError
        "the first callback must exactly match the prompt snapshot" with
        position := some checked.position })
    else .ok .initialMasks
  | some previousWidth =>
    if processor.trustedFixedAppend then
      if checked.position ≠ previousWidth + 1 then .error (notExtended none checked.position)
      else
        match lastTokens input.lastColumn checked.rowCount with
        | .error raised => .error raised
        | .ok appendedTokens =>
          (processor.checkTokens checked.position 0 appendedTokens).map .advance
    else
      match checked.parsedRows, processor.previous with
      | some parsedRows, some previous =>
        (processor.extendedTokens checked.position 0 previous parsedRows).map .advance
      | _, _ =>
        .error (.own (.new .internalError
          "the logits processor history invariant was violated"))

/-- **The first phase of a call.** -/
def prepareCall (input : InputIds) (scoresShape : RawRow) : Except Raised (Checked × Plan) :=
  match processor.checkArguments input scoresShape with
  | .error raised => .error raised
  | .ok checked => (processor.planCall input checked).map fun plan => (checked, plan)

/-! ## The other phases -/

/-- A native call. -/
def nativeCall (plan : Plan) (memory : Memory) :
    Except NativeFailure (List UInt8) × NativeBatch × Memory :=
  match plan with
  | .initialMasks => processor.batch.initialMasks memory
  | .advance tokens => processor.batch.advanceAndMasks tokens memory

/-- **The second phase of a call**: the packed masks. -/
def serve (plan : Plan) (position : ℤ) (memory : Memory) :
    Except Raised (List UInt8) × LogitsProcessor × Memory :=
  match processor.nativeCall plan memory with
  | (.ok packed, batch, memory) => (.ok packed, { processor with batch }, memory)
  | (.error failure, batch, memory) =>
    let error := fromNative failure.intoPyerr (some position)
    (.error (.own error),
      { processor with
        batch
        poisoned := if error.type = .internalError then true else processor.poisoned },
      memory)

end LogitsProcessor

/-- What a call raises when its masker fails. -/
def MaskFailure.raised (failure : MaskFailure) (position : ℤ) : Raised :=
  match failure with
  | .own error => .own error
  | .exception text =>
    .own { GreatGrammaError.new .internalError s!"mask application failed: {text}" with
      position := some position }
  | .base => .foreign

namespace LogitsProcessor

variable (processor : LogitsProcessor) {S R : Type} (masker : Masker S R)

/-- **The third phase of a call**: the masks are applied, and the history is committed. -/
def finish (scores : Scores S) (checked : Checked) (packed : List UInt8) :
    Except Raised R × LogitsProcessor :=
  match masker scores.values packed checked.rowCount.toNat processor.vocabSize with
  | .error failure =>
    (.error (failure.raised checked.position), { processor with poisoned := true })
  | .ok result =>
    if processor.trustedFixedAppend then
      (.ok result, { processor with
        previousWidth := some checked.position
        scoreVocabSize := some checked.scoreVocab })
    else
      match checked.parsedRows with
      | none =>
        (.error (.own (.new .internalError
          "the logits processor history invariant was violated")),
          { processor with previousWidth := some checked.position })
      | some parsedRows =>
        (.ok result, { processor with
          previousWidth := some checked.position
          previous := some parsedRows
          scoreVocabSize := some checked.scoreVocab })

/-- `GreatGrammaLogitsProcessor._call_locked`. -/
def callLocked (input : InputIds) (scores : Scores S) (memory : Memory) :
    Except Raised R × LogitsProcessor × Memory :=
  match processor.prepareCall input scores.shape with
  | .error raised => (.error raised, processor, memory)
  | .ok (checked, plan) =>
    match processor.serve plan checked.position memory with
    | (.error raised, processor, memory) => (.error raised, processor, memory)
    | (.ok packed, processor, memory) =>
      match processor.finish masker scores checked packed with
      | (result, processor) => (result, processor, memory)

/-- The processor after a sequence of calls. -/
def run (processor : LogitsProcessor) (memory : Memory) :
    List (InputIds × Scores S) → LogitsProcessor × Memory
  | [] => (processor, memory)
  | (input, scores) :: calls =>
    match processor.callLocked masker input scores memory with
    | (_, processor, memory) => run processor memory calls

end LogitsProcessor
end GreatGramma
