import GreatGramma.Core.LalrReference
import GreatGramma.Core.Spanner

/-!
# Classifying heads by parser state

`preprocess.rs`: every parser state against every interned head, executed from a symbolic one-state
stack.  A head is readable from the state whatever lies below, rejected whatever lies below, or it
depends on what lies below.  At run time the cell of the state on top of a stack answers for the
stack, and only dependent heads are replayed on it.

## The table

The table is filled row by row, a row for each state and in it a cell for each head.  States and
heads are numbered by 32-bit identifiers in the source, and a position that does not fit one, or a
head that is not in the table of heads, is an `InvariantViolation`: both cannot happen with what
preparation passes on.

## Budgets

The table is filled under the work budget of preparation.  A run gets what is left of the budget for
its limit, and what it has counted is charged afterwards; a run that was stopped by its limit has
counted more than what is left, so charging it is refused.  The number of cells is checked against
the limit on items before anything is run, together with one item for each row.
-/

namespace GreatGramma

open Reservation

/-- Whether a sequence head is readable from a parser state without consulting
states below the current stack top. -/
inductive SequenceClassification where
  | alwaysReadable
  | rejected
  | dependent
  deriving DecidableEq

/-- Direct parser-state by sequence-head classification table. -/
structure PreparedParser where
  rows : List (List SequenceClassification)

/-- `PreparedParser::classification`. -/
def PreparedParser.classification (parser : PreparedParser) (state : ParserStateId)
    (sequence : SequenceId) : Except ParserError SequenceClassification :=
  match parser.rows[state]? with
  | none => .error (.invalidState state)
  | some row =>
    match row[sequence]? with
    | none => .error (.invalidSequence sequence)
    | some classification => .ok classification

/-- `classify_decision`. -/
def classifyDecision (decision : RunDecision) : SequenceClassification :=
  match decision with
  | .rejected => .rejected
  | .dependent => .dependent
  | .continue => .alwaysReadable
  | .accepted => .alwaysReadable

/-- Classifies one sequence head by executing it from a symbolic one-state stack.
The final terminal is probed but none of its effects are committed. -/
def classifySequenceHead (grammar : ValidatedGrammar) (state : ParserStateId)
    (sequenceHead : List TerminalId) (memory : Memory) :
    Except ParserError SequenceClassification × Memory :=
  if sequenceHead.isEmpty then (.error .emptySequenceHead, memory)
  else
    match executeTerminalsSymbolic grammar.lalr [state] sequenceHead memory with
    | (.error error, memory) => (.error error, memory)
    | (.ok decision, memory) => (.ok (classifyDecision decision), memory)

/-- `map_parser_preparation_error`. -/
def mapParserPreparationError (error : ParserError) : PreparationError :=
  match error with
  | .allocationFailure requested => .allocationFailure requested
  | _ => .invariantViolation

/-- `classify_sequence_head_with_budget`. -/
def classifySequenceHeadWithBudget (grammar : ValidatedGrammar) (state : ParserStateId)
    (sequenceHead : List TerminalId) (work : WorkBudget) :
    Except PreparationError (SequenceClassification × WorkBudget) :=
  if sequenceHead.isEmpty then .error .invariantViolation
  else
    match (executeTerminalsSymbolicCheckedWithLimit grammar.lalr [state] sequenceHead
        work.remaining .granting).1 with
    | .error error => .error (mapParserPreparationError error)
    | .ok (.complete decision inspected) => do
      let work ← work.charge inspected
      return (classifyDecision decision, work)
    | .ok (.workLimitExceeded required) =>
      match work.charge required with
      | .error error => .error error
      | .ok _ => .error .invariantViolation

/-- `prepare_parser_row`. -/
def prepareParserRow (grammar : ValidatedGrammar) (preparedSpanner : PreparedSpanner)
    (state : ParserStateId) (sequenceCount : ℕ) (work : WorkBudget) :
    Except PreparationError (List SequenceClassification × WorkBudget) :=
  (List.range sequenceCount).foldlM
    (fun (row, work) sequenceIndex => do
      let some sequence := u32TryFrom sequenceIndex | throw .invariantViolation
      let some head := preparedSpanner.sequence sequence | throw .invariantViolation
      let (classification, work) ← classifySequenceHeadWithBudget grammar state head work
      return (row ++ [classification], work))
    ([], work)

/-- `prepare_parser_with_budget`. -/
def prepareParserWithBudget (grammar : ValidatedGrammar) (preparedSpanner : PreparedSpanner)
    (limits : PreparationLimits) (work : WorkBudget) :
    Except PreparationError (PreparedParser × WorkBudget) := do
  let stateCount := grammar.lalr.stateCount
  let sequenceCount := preparedSpanner.sequenceCount
  let tableItems := (checkedMul stateCount sequenceCount).bind fun cells =>
    checkedAdd cells stateCount
  let _ ← checkItems tableItems limits
  let work ← work.charge stateCount
  let (rows, work) ← (List.range stateCount).foldlM
    (fun (rows, work) stateIndex => do
      let some state := u32TryFrom stateIndex | throw .invariantViolation
      let (row, work) ← prepareParserRow grammar preparedSpanner state sequenceCount work
      return (rows ++ [row], work))
    ([], work)
  return (⟨rows⟩, work)

/-- Builds the direct parser-state by interned-sequence classification table. -/
def prepareParser (grammar : ValidatedGrammar) (preparedSpanner : PreparedSpanner)
    (limits : PreparationLimits) : Except PreparationError PreparedParser := do
  let (parser, _) ← prepareParserWithBudget grammar preparedSpanner limits (WorkBudget.new limits)
  return parser

end GreatGramma
