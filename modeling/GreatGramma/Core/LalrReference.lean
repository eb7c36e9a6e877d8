import GreatGramma.Core.Lalr

/-!
# Sequence heads against the full interpreter

`lalr_reference.rs`.  A sequence head is a direct prefix and one final terminal; the prefix is
executed and the final terminal is only probed, because the lexer has not finished it yet, and what
is emitted in the end may be another terminal.

There are two functions for this.  The public reference keeps the stack after the prefix, and probes
the final terminal on a copy of it.  The runtime keeps the answer alone: it runs prefix and probe on
one scratch stack, which the probe may overwrite.

## Answers

A prefix or a probe that is rejected makes the head not readable, which is an answer and not an
error.  A head without terminals, a prefix that accepts before its end, and a decision that only a
symbolic run can come to are errors.  So is every fault of the table, which the interpreter of
`lalr.rs` reports and both functions pass on.

Both call that interpreter on the same terminals, so they meet the same faults of a table, and that
they give the same answer on every stack is shown in `Parser.Heads`.
-/

namespace GreatGramma

open Reservation

/-- `execute_sequence_head_checked`. -/
def executeSequenceHeadChecked (grammar : ValidatedGrammar) (stack : List ParserStateId)
    (sequenceHead : List TerminalId) (memory : Memory) :
    Except ParserError (Option (List ParserStateId)) × Memory :=
  if sequenceHead.length = 0 then (.error .invariantViolation, memory)
  else
    let directLen := sequenceHead.length - 1
    match executeTerminalsConcreteInto grammar.lalr stack (sequenceHead.take directLen)
        ⟨[], memory⟩ with
    | (.error error, committed) => (.error error, committed.memory)
    | (.ok .rejected, committed) => (.ok none, committed.memory)
    | (.ok .accepted, committed) =>
      if directLen = 0 then (.error .invariantViolation, committed.memory)
      else (.error (.acceptBeforeEnd (directLen - 1)), committed.memory)
    | (.ok .dependent, committed) => (.error .invariantViolation, committed.memory)
    | (.ok .continue, committed) =>
      match executeTerminalsConcreteInto grammar.lalr committed.stack
          (sequenceHead.drop directLen) ⟨[], committed.memory⟩ with
      | (.error error, probe) => (.error error, probe.memory)
      | (.ok .rejected, probe) => (.ok none, probe.memory)
      | (.ok .continue, probe) => (.ok (some committed.stack), probe.memory)
      | (.ok .accepted, probe) => (.ok (some committed.stack), probe.memory)
      | (.ok .dependent, probe) => (.error .invariantViolation, probe.memory)

/-- Executes the direct prefix of a realizable sequence head and probes its final
terminal without committing the probe's reductions or shift. -/
def executeSequenceHead (grammar : ValidatedGrammar) (stack : List ParserStateId)
    (sequenceHead : List TerminalId) (memory : Memory) :
    Except ParserError (Option (List ParserStateId)) × Memory :=
  if sequenceHead.isEmpty then (.error .emptySequenceHead, memory)
  else
    match validateInputs grammar.lalr stack sequenceHead with
    | .error error => (.error error, memory)
    | .ok () => executeSequenceHeadChecked grammar stack sequenceHead memory

/-- Checks one realizable head with a single reusable stack. -/
def sequenceHeadAllowedWithScratch (grammar : ValidatedGrammar) (stack : List ParserStateId)
    (sequenceHead : List TerminalId) (scratch : Workspace) : Except ParserError Bool × Workspace :=
  if sequenceHead.length = 0 then (.error .emptySequenceHead, scratch)
  else
    let directLen := sequenceHead.length - 1
    match executeTerminalsConcreteInto grammar.lalr stack (sequenceHead.take directLen) scratch with
    | (.error error, scratch) => (.error error, scratch)
    | (.ok .rejected, scratch) => (.ok false, scratch)
    | (.ok .accepted, scratch) =>
      if directLen = 0 then (.error .invariantViolation, scratch)
      else (.error (.acceptBeforeEnd (directLen - 1)), scratch)
    | (.ok .dependent, scratch) => (.error .invariantViolation, scratch)
    | (.ok .continue, scratch) =>
      match executeTerminalsConcreteInPlace grammar.lalr scratch (sequenceHead.drop directLen) with
      | (.error error, scratch) => (.error error, scratch)
      | (.ok .rejected, scratch) => (.ok false, scratch)
      | (.ok .continue, scratch) => (.ok true, scratch)
      | (.ok .accepted, scratch) => (.ok true, scratch)
      | (.ok .dependent, scratch) => (.error .invariantViolation, scratch)

end GreatGramma
